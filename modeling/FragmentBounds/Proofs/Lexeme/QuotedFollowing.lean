import FragmentBounds.Proofs.Lexeme.Following

/-! What may follow a quoted literal. A closed one may stand before anything;
one that is never closed ends with the line or with the text. -/
namespace FragmentBounds.Lexeme

/-- The same first character, or the end of the line or of the text. -/
def LineLook (rest other : List Char) : Prop :=
  other.head? = rest.head? ∨ Next (· = '\n') other

theorem LineLook.append {rest other : List Char} (look : LineLook rest other)
    (front : List Char) : LineLook (front ++ rest) (front ++ other) := by
  cases front with
  | nil => exact look
  | cons c front => exact .inl rfl

theorem LineLook.next {p : Char → Prop} {rest other : List Char} (look : LineLook rest other)
    (next : Next p rest) (feed : p '\n') : Next p other := by
  rcases look with same | ended
  · exact next.congr same
  · exact ended.imp fun c same => same ▸ feed

private theorem runUpTo_spec (limit : Nat) (p : Char → Bool) (text : List Char) :
    (runUpTo limit p text).1.length ≤ limit ∧ (∀ c ∈ (runUpTo limit p text).1, p c) ∧
      ((runUpTo limit p text).1.length < limit →
        Next (fun c => p c = false) (runUpTo limit p text).2) := by
  fun_induction runUpTo limit p text <;> simp_all

private theorem runUpTo_of_next {limit : Nat} {p : Char → Bool} {run rest : List Char}
    (few : run.length ≤ limit) (inside : ∀ c ∈ run, p c)
    (ended : run.length < limit → Next (fun c => p c = false) rest) :
    runUpTo limit p (run ++ rest) = (run, rest) := by
  induction run generalizing limit with
  | nil =>
    cases limit with
    | zero => rfl
    | succ limit =>
      cases rest with
      | nil => rfl
      | cons c rest => simp [runUpTo, next_cons.mp (ended (Nat.succ_pos limit))]
  | cons c run ih =>
    cases limit with
    | zero => cases few
    | succ limit =>
      have more : runUpTo limit p (run ++ rest) = (run, rest) :=
        ih (Nat.le_of_succ_le_succ few) (fun d member => inside d (List.mem_cons_of_mem _ member))
          fun short => ended (Nat.succ_lt_succ short)
      simp [runUpTo, inside c, more]

theorem runUpTo_eq_iff {limit : Nat} {p : Char → Bool} {text run rest : List Char} :
    runUpTo limit p text = (run, rest) ↔ text = run ++ rest ∧ run.length ≤ limit ∧
      (∀ c ∈ run, p c) ∧ (run.length < limit → Next (fun c => p c = false) rest) := by
  constructor
  · intro read
    have whole := runUpTo_append limit p text
    have spec := runUpTo_spec limit p text
    rw [read] at whole spec
    exact ⟨whole.symm, spec⟩
  · rintro ⟨rfl, few, inside, ended⟩
    exact runUpTo_of_next few inside ended

private theorem runUpTo_keeps {limit : Nat} {p : Char → Bool} (feed : p '\n' = false)
    {run rest other : List Char} (read : runUpTo limit p (run ++ rest) = (run, rest))
    (look : LineLook rest other) : runUpTo limit p (run ++ other) = (run, other) := by
  obtain ⟨-, few, digits, next⟩ := runUpTo_eq_iff.mp read
  exact runUpTo_eq_iff.mpr ⟨rfl, few, digits, fun short => look.next (next short) feed⟩

theorem escape_of_octal {c : Char} (octal : isOctalDigit c) (text : List Char) :
    escape (c :: text) = runUpTo 3 isOctalDigit (c :: text) := by
  have feed : c ≠ '\n' := by
    rintro rfl
    simp [isOctalDigit] at octal
  simp [escape, feed, octal]

theorem escape_of_other {c : Char} (feed : c ≠ '\n') (octal : isOctalDigit c = false)
    (text : List Char) :
    escape (c :: text) =
      (c :: (runUpTo (hexWidth c) isHexDigit text).1, (runUpTo (hexWidth c) isHexDigit text).2) := by
  simp [escape, feed, octal]

private theorem escape_keeps {body rest other : List Char}
    (read : escape (body ++ rest) = (body, rest)) (look : LineLook rest other) :
    escape (body ++ other) = (body, other) := by
  cases body with
  | nil =>
    have ended : Next (· = '\n') rest := by
      cases rest with
      | nil => simp
      | cons c rest =>
        rw [next_cons]
        by_cases feed : c = '\n'
        · exact feed
        · cases octal : isOctalDigit c with
          | true => simp [escape_of_octal octal, runUpTo, octal] at read
          | false => simp [escape_of_other feed octal] at read
    have ended := look.next ended rfl
    cases other with
    | nil => rfl
    | cons c other => simp [escape, next_cons.mp ended]
  | cons c body =>
    cases octal : isOctalDigit c with
    | true =>
      rw [List.cons_append, escape_of_octal octal] at read ⊢
      have feed : isOctalDigit '\n' = false := by decide
      have read : runUpTo 3 isOctalDigit ((c :: body) ++ rest) = (c :: body, rest) := read
      exact runUpTo_keeps feed read look
    | false =>
      by_cases feed : c = '\n'
      · simp [escape, feed] at read
      · rw [List.cons_append, escape_of_other feed octal] at read ⊢
        simp only [Prod.mk.injEq, List.cons.injEq, true_and] at read ⊢
        have feed : isHexDigit '\n' = false := by decide
        exact Prod.mk.inj (runUpTo_keeps feed (Prod.ext read.1 read.2) look)

private theorem unit?_keeps {quote : Char} {unit rest other : List Char}
    (read : unit? quote (unit ++ rest) = some (unit, rest)) (look : LineLook rest other) :
    unit? quote (unit ++ other) = some (unit, other) := by
  cases unit with
  | nil => exact absurd rfl (unit?_append read).1
  | cons c body =>
    simp only [List.cons_append, unit?] at read ⊢
    split at read
    · simp at read
    · split at read
      · simp only [Option.some.injEq, Prod.mk.injEq, List.cons.injEq, true_and] at read
        rw [escape_keeps (Prod.ext read.1 read.2) look]
        simp_all
      · simp_all

theorem units_keeps {quote : Char} {content : List (List Char)} {text rest other : List Char}
    (read : units quote text = (content, rest)) (look : LineLook rest other)
    (ended : unit? quote other = none) :
    units quote (content.flatten ++ other) = (content, other) := by
  fun_induction units quote text generalizing content with
  | case1 text none =>
    cases read
    rw [List.flatten_nil, List.nil_append, units]
    split
    · rfl
    · simp_all
  | case2 text unit after first inner final more ih =>
    cases read
    have whole := unit?_append first
    have behind := units_append quote after
    rw [more] at behind
    subst behind
    rw [← whole.2] at first
    have first := unit?_keeps first (look.append inner.flatten)
    rw [List.flatten_cons, List.append_assoc, units]
    split
    · simp_all
    · next found =>
      rw [first] at found
      cases found
      rw [ih more]

theorem units_of_unit? {quote : Char} {text unit rest : List Char}
    (next : unit? quote text = some (unit, rest)) :
    units quote text = (unit :: (units quote rest).1, (units quote rest).2) := by
  rw [units]
  split
  · next none => rw [none] at next; cases next
  · next same => rw [same] at next; cases next; rfl

theorem units_of_ended {quote : Char} {text : List Char} (ended : unit? quote text = none) :
    units quote text = ([], text) := by
  rw [units]
  split
  · rfl
  · next same => rw [same] at ended; cases ended

theorem unit?_eq_none {quote : Char} {text : List Char} :
    unit? quote text = none ↔ Next (fun c => c = quote ∨ c = '\n') text := by
  cases text with
  | nil => simp [unit?]
  | cons c text =>
    rw [next_cons]
    by_cases stop : c = quote ∨ c = '\n'
    · simp [unit?, stop]
    · by_cases slash : c = '\\' <;> simp [unit?, stop, slash]

theorem next_units (quote : Char) (text : List Char) :
    Next (fun c => c = quote ∨ c = '\n') (units quote text).2 := by
  fun_induction units quote text with
  | case1 text none => exact unit?_eq_none.mp none
  | case2 text unit after first inner final more ih =>
    rw [more] at ih
    exact ih

/-- The forms of quoted literals, each with what may follow it. -/
inductive QuotedForm : Lexeme → List Char → Prop
  | string {content rest}
      (closed : units '"' (content.flatten ++ '"' :: rest) = (content, '"' :: rest)) :
      QuotedForm ⟨.literal .string, '"' :: content.flatten ++ ['"']⟩ rest
  | openString {content rest} (unclosed : units '"' (content.flatten ++ rest) = (content, rest))
      (ended : Next (· = '\n') rest) :
      QuotedForm ⟨.malformed .unterminatedString, '"' :: content.flatten⟩ rest
  | rune {content rest}
      (closed : units '\'' (content.flatten ++ '\'' :: rest) = (content, '\'' :: rest)) :
      QuotedForm ⟨if content.length = 1 then .literal .rune else .malformed .invalidRune,
        '\'' :: content.flatten ++ ['\'']⟩ rest
  | openRune {content rest} (unclosed : units '\'' (content.flatten ++ rest) = (content, rest))
      (ended : Next (· = '\n') rest) :
      QuotedForm ⟨.malformed .unterminatedRune, '\'' :: content.flatten⟩ rest
  | rawString {content rest} (inside : ∀ c ∈ content, c ≠ '\x60') :
      QuotedForm ⟨.literal .rawString, '\x60' :: content ++ ['\x60']⟩ rest
  | openRawString {content} (inside : ∀ c ∈ content, c ≠ '\x60') :
      QuotedForm ⟨.malformed .unterminatedRawString, '\x60' :: content⟩ []

private theorem unitsForm (quote : Char) (text : List Char) :
    (∃ content rest, text = content.flatten ++ quote :: rest ∧
      units quote (content.flatten ++ quote :: rest) = (content, quote :: rest)) ∨
    ∃ content rest, text = content.flatten ++ rest ∧ Next (· ≠ quote) rest ∧
      Next (· = '\n') rest ∧ units quote (content.flatten ++ rest) = (content, rest) := by
  have whole := units_append quote text
  have stop := next_units quote text
  generalize read : units quote text = result at whole stop
  obtain ⟨content, rest⟩ := result
  subst whole
  cases rest with
  | nil => exact .inr ⟨content, [], by simp, by simp, by simp, read⟩
  | cons c rest =>
    by_cases closed : c = quote
    · subst closed
      exact .inl ⟨content, rest, rfl, read⟩
    · have feed : c = '\n' := by simpa [closed] using stop
      exact .inr ⟨content, c :: rest, rfl, by simpa using closed, by simpa using feed, read⟩

theorem quotedForm_of_read {text rest : List Char} {lexeme : Lexeme}
    (first : quoted? text = some (lexeme, rest)) : QuotedForm lexeme rest := by
  unfold quoted? at first
  split at first
  · next text =>
    simp only [Option.some.injEq] at first
    rcases unitsForm '"' text with ⟨content, after, rfl, read⟩ |
      ⟨content, after, rfl, other, ended, read⟩
    · simp only [Lexeme.string, read] at first
      cases first
      exact .string read
    · simp only [Lexeme.string, read] at first
      split at first
      · simp at other
      · cases first
        exact .openString read ended
  · next text =>
    simp only [Option.some.injEq] at first
    rcases unitsForm '\'' text with ⟨content, after, rfl, read⟩ |
      ⟨content, after, rfl, other, ended, read⟩
    · simp only [Lexeme.rune, read] at first
      cases first
      exact .rune read
    · simp only [Lexeme.rune, read] at first
      split at first
      · simp at other
      · cases first
        exact .openRune read ended
  · next text =>
    have inside : ∀ c ∈ text.takeWhile (· != '\x60'), c ≠ '\x60' := fun c member => by
      simpa using of_mem_takeWhile member
    have behind := next_dropWhile (· != '\x60') text
    simp only [Option.some.injEq, Lexeme.rawString] at first
    split at first
    · next quote after found =>
      have same : quote = '\x60' := by simpa [found] using behind
      cases first
      rw [same]
      exact .rawString inside
    · cases first
      exact .openRawString inside
  · simp at first

theorem QuotedForm.read {lexeme : Lexeme} {rest : List Char} (form : QuotedForm lexeme rest) :
    quoted? (lexeme.text ++ rest) = some (lexeme, rest) := by
  cases form with
  | string closed => simp [quoted?, Lexeme.string, closed]
  | @openString content rest unclosed ended =>
    simp only [List.cons_append, quoted?, Lexeme.string, unclosed]
    split
    · simp at ended
    · rfl
  | rune closed => simp [quoted?, Lexeme.rune, closed]
  | @openRune content rest unclosed ended =>
    simp only [List.cons_append, quoted?, Lexeme.rune, unclosed]
    split
    · simp at ended
    · rfl
  | @rawString content rest inside =>
    have inside : ∀ c ∈ content, (c != '\x60') = true := fun c member => by
      simpa using inside c member
    have ended : Next (fun c => (c != '\x60') = false) ('\x60' :: rest) := by simp
    simp [quoted?, Lexeme.rawString, takeWhile_of_next inside ended,
      dropWhile_of_next inside ended]
  | @openRawString content inside =>
    have inside : ∀ c ∈ content, (c != '\x60') = true := fun c member => by
      simpa using inside c member
    have run := takeWhile_of_next inside (next_nil _)
    have after := dropWhile_of_next inside (next_nil _)
    rw [List.append_nil] at run after
    simp [quoted?, Lexeme.rawString, run, after]

private theorem units_open {quote : Char} {content : List (List Char)} {rest other : List Char}
    (unclosed : units quote (content.flatten ++ rest) = (content, rest))
    (ended : Next (· = '\n') rest) (next : other.head? = rest.head? ∨ Next (· = '\n') other) :
    units quote (content.flatten ++ other) = (content, other) ∧ Next (· = '\n') other := by
  have feed : Next (· = '\n') other := LineLook.next next ended rfl
  have stop : unit? quote other = none := unit?_eq_none.mpr (feed.imp fun c => Or.inr)
  exact ⟨units_keeps unclosed next stop, feed⟩

theorem quoted?_keeps {lexeme : Lexeme} {rest other : List Char}
    (first : quoted? (lexeme.text ++ rest) = some (lexeme, rest))
    (keeps : Keeps lexeme.tag rest other) :
    quoted? (lexeme.text ++ other) = some (lexeme, other) := by
  apply QuotedForm.read
  cases quotedForm_of_read first with
  | string closed =>
    exact .string (units_keeps closed (.inl rfl) (unit?_eq_none.mpr (by simp)))
  | openString unclosed ended =>
    have next := keeps.imp And.left fun ends => ends.imp fun c feed => by
      simpa [endsBefore] using feed
    obtain ⟨unclosed, ended⟩ := units_open unclosed ended next
    exact .openString unclosed ended
  | rune closed =>
    exact .rune (units_keeps closed (.inl rfl) (unit?_eq_none.mpr (by simp)))
  | openRune unclosed ended =>
    have next := keeps.imp And.left fun ends => ends.imp fun c feed => by
      simpa [endsBefore] using feed
    obtain ⟨unclosed, ended⟩ := units_open unclosed ended next
    exact .openRune unclosed ended
  | rawString inside => exact .rawString inside
  | openRawString inside =>
    have nothing : other = [] := by
      rcases keeps with ⟨same, -⟩ | ended
      · simpa using same
      · cases other with
        | nil => rfl
        | cons c other => simp [endsBefore] at ended
    subst nothing
    exact .openRawString inside

end FragmentBounds.Lexeme
