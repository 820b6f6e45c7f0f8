import FragmentBounds.Proofs.Lexeme.Boundary

/-! What stands between quotes. Read as single characters and pairs of a
backslash and the character behind it, a text comes to the same quote as when
escapes are taken in whole, for their digits delimit nothing. -/
namespace FragmentBounds.Lexeme

/-- Characters other than the quote, and any behind a backslash. There is no
line feed among them. -/
inductive Content (quote : Char) : List Char → Prop
  | nil : Content quote []
  | plain {c : Char} {text : List Char} (other : c ≠ quote) (unescaped : c ≠ '\\')
      (inside : c ≠ '\n') (more : Content quote text) : Content quote (c :: text)
  | escaped {c : Char} {text : List Char} (inside : c ≠ '\n') (more : Content quote text) :
      Content quote ('\\' :: c :: text)

/-- What may stand behind a backslash: the letter of a width and at most that
many hexadecimal digits, one to three octal digits, or any other character. -/
inductive EscapeBody : List Char → Prop
  | hexadecimal {mark : Char} {width : Nat} {digits : List Char}
      (sized : (mark, width) ∈ [('x', 2), ('u', 4), ('U', 8)]) (few : digits.length ≤ width)
      (hex : ∀ c ∈ digits, isHexDigit c) : EscapeBody (mark :: digits)
  | octal {digits : List Char} (nonempty : digits ≠ []) (few : digits.length ≤ 3)
      (octal : ∀ c ∈ digits, isOctalDigit c) : EscapeBody digits
  | other {c : Char} (inside : c ≠ '\n') (unmarked : c ∉ ['x', 'u', 'U'])
      (digitless : isOctalDigit c = false) : EscapeBody [c]

/-- One character of a rune, or one escape. -/
inductive RuneUnit : List Char → Prop
  | plain {c : Char} (other : c ≠ '\'') (unescaped : c ≠ '\\') (inside : c ≠ '\n') : RuneUnit [c]
  | escaped {body : List Char} (escape : EscapeBody body) : RuneUnit ('\\' :: body)

section Escape

variable {c : Char} {text : List Char}

theorem isHexDigit_of_octal (octal : isOctalDigit c) : isHexDigit c := by
  simp only [isOctalDigit, decide_eq_true_eq] at octal
  have digit : c.isDigit := by
    simp only [Char.isDigit, Bool.and_eq_true, decide_eq_true_eq]
    exact ⟨octal.1, Char.le_trans octal.2 (by decide : '7' ≤ '9')⟩
  simp [isHexDigit, digit]

theorem ne_of_isHexDigit {d : Char} (hex : isHexDigit d) (other : isHexDigit c = false) : d ≠ c := by
  rintro rfl
  simp [hex] at other

theorem escape_cons (inside : c ≠ '\n') (text : List Char) :
    ∃ digits rest, escape (c :: text) = (c :: digits, rest) ∧ text = digits ++ rest ∧
      ∀ d ∈ digits, isHexDigit d := by
  cases octal : isOctalDigit c with
  | true =>
    obtain ⟨whole, -, digits, -⟩ := runUpTo_eq_iff.mp (rfl : runUpTo 2 isOctalDigit text = (_, _))
    refine ⟨_, _, ?_, whole, fun d member => isHexDigit_of_octal (digits d member)⟩
    rw [escape_of_octal octal, runUpTo, if_pos octal]
  | false =>
    obtain ⟨whole, -, digits, -⟩ :=
      runUpTo_eq_iff.mp (rfl : runUpTo (hexWidth c) isHexDigit text = (_, _))
    exact ⟨_, _, escape_of_other inside octal text, whole, digits⟩

theorem escape_of_ended (ended : Next (· = '\n') text) : escape text = ([], text) := by
  cases text with
  | nil => rfl
  | cons c text => simp [escape, next_cons.mp ended]

end Escape

section Units

variable {quote : Char} {text tail digits : List Char}

theorem unit?_eq_some {unit rest : List Char} (quoted : quote ≠ '\\') :
    unit? quote text = some (unit, rest) ↔
      (∃ c, c ≠ quote ∧ c ≠ '\\' ∧ c ≠ '\n' ∧ text = c :: rest ∧ unit = [c]) ∨
        ∃ after body, text = '\\' :: after ∧ escape after = (body, rest) ∧ unit = '\\' :: body := by
  constructor
  · intro first
    unfold unit? at first
    split at first
    · cases first
    · next c after =>
      split at first
      · cases first
      · next goesOn =>
        simp only [Bool.or_eq_true, beq_iff_eq, not_or] at goesOn
        split at first
        · next slash =>
          obtain rfl := beq_iff_eq.mp slash
          cases first
          exact .inr ⟨after, _, rfl, rfl, rfl⟩
        · next plain =>
          cases first
          exact .inl ⟨c, goesOn.1, by simpa using plain, goesOn.2, rfl, rfl⟩
  · rintro (⟨c, other, unescaped, inside, rfl, rfl⟩ | ⟨after, body, rfl, escaped, rfl⟩)
    · simp [unit?, other, unescaped, inside]
    · simp [unit?, quoted.symm, escaped]

theorem units_digits (quoted : isHexDigit quote = false) (hex : ∀ d ∈ digits, isHexDigit d) :
    (units quote (digits ++ tail)).2 = (units quote tail).2 := by
  induction digits with
  | nil => rfl
  | cons d digits ih =>
    have differs {c : Char} : isHexDigit c = false → d ≠ c :=
      ne_of_isHexDigit (hex d List.mem_cons_self)
    have plain : unit? quote (d :: (digits ++ tail)) = some ([d], digits ++ tail) := by
      simp [unit?, differs quoted, differs (by decide : isHexDigit '\n' = false),
        differs (by decide : isHexDigit '\\' = false)]
    rw [List.cons_append, units_of_unit? plain]
    exact ih fun c member => hex c (List.mem_cons_of_mem _ member)

theorem Content.digits_append (quoted : isHexDigit quote = false) (hex : ∀ d ∈ digits, isHexDigit d)
    (content : Content quote text) : Content quote (digits ++ text) := by
  induction digits with
  | nil => exact content
  | cons d digits ih =>
    have differs {c : Char} : isHexDigit c = false → d ≠ c :=
      ne_of_isHexDigit (hex d List.mem_cons_self)
    exact .plain (differs quoted) (differs (by decide)) (differs (by decide))
      (ih fun c member => hex c (List.mem_cons_of_mem _ member))

theorem Content.units_append (content : Content quote text) (quoted : isHexDigit quote = false)
    (unslashed : quote ≠ '\\') : (units quote (text ++ tail)).2 = (units quote tail).2 := by
  induction content with
  | nil => rfl
  | @plain c text other unescaped inside _ ih =>
    have plain : unit? quote (c :: (text ++ tail)) = some ([c], text ++ tail) :=
      (unit?_eq_some unslashed).mpr (.inl ⟨c, other, unescaped, inside, rfl, rfl⟩)
    rw [List.cons_append, units_of_unit? plain]
    exact ih
  | @escaped c text inside _ ih =>
    obtain ⟨digits, rest, escaped, whole, hex⟩ := escape_cons inside (text ++ tail)
    have unit := (unit?_eq_some unslashed).mpr (.inr ⟨c :: (text ++ tail), _, rfl, escaped, rfl⟩)
    rw [List.cons_append, List.cons_append, units_of_unit? unit]
    rw [whole, units_digits quoted hex] at ih
    exact ih

theorem content_of_units (quoted : isHexDigit quote = false) (unslashed : quote ≠ '\\')
    (text : List Char) :
    ∃ content hanging, (units quote text).1.flatten = content ++ hanging ∧ Content quote content ∧
      (hanging = [] ∨ hanging = ['\\'] ∧ Next (· = '\n') (units quote text).2) := by
  fun_induction units quote text with
  | case1 => exact ⟨[], [], rfl, .nil, .inl rfl⟩
  | case2 text unit rest first content after more ih =>
    rw [more] at ih
    obtain ⟨inner, hanging, same, inside, ended⟩ := ih
    rcases (unit?_eq_some unslashed).mp first with
      ⟨c, other, unescaped, feedless, rfl, rfl⟩ | ⟨behind, body, rfl, escaped, rfl⟩
    · exact ⟨c :: inner, hanging, by simp [same], .plain other unescaped feedless inside, ended⟩
    · by_cases stops : Next (· = '\n') behind
      · rw [escape_of_ended stops] at escaped
        cases escaped
        have none : unit? quote rest = none := unit?_eq_none.mpr (stops.imp fun _ => .inr)
        rw [units_of_ended none] at more
        cases more
        exact ⟨[], ['\\'], rfl, .nil, .inr ⟨rfl, stops⟩⟩
      · obtain ⟨c, after, rfl⟩ : ∃ c after, behind = c :: after :=
          List.exists_cons_of_ne_nil fun none => stops (by simp [none])
        have feedless : c ≠ '\n' := fun feed => stops (by simp [feed])
        obtain ⟨digits, _, read, -, hex⟩ := escape_cons feedless after
        rw [read] at escaped
        cases escaped
        exact ⟨'\\' :: c :: (digits ++ inner), hanging, by simp [same],
          .escaped feedless (inside.digits_append quoted hex), ended⟩

/-- Content has units that come to an end where no other unit starts. A backslash
behind it is one more unit, if the line or the text ends there. -/
theorem Content.units_eq (content : Content quote text) (quoted : isHexDigit quote = false)
    (unslashed : quote ≠ '\\') {hanging : List Char} (ended : unit? quote tail = none)
    (cut : hanging = [] ∨ hanging = ['\\'] ∧ Next (· = '\n') tail) :
    ∃ parts, parts.flatten = text ++ hanging ∧
      units quote (text ++ hanging ++ tail) = (parts, tail) := by
  have reaches : (units quote (text ++ (hanging ++ tail))).2 = tail := by
    rw [content.units_append quoted unslashed]
    rcases cut with rfl | ⟨rfl, stops⟩
    · rw [List.nil_append, units_of_ended ended]
    · have unit : unit? quote ('\\' :: tail) = some (['\\'], tail) :=
        (unit?_eq_some unslashed).mpr (.inr ⟨tail, [], rfl, escape_of_ended stops, rfl⟩)
      rw [List.singleton_append, units_of_unit? unit, units_of_ended ended]
  have whole := Lexeme.units_append quote (text ++ hanging ++ tail)
  rw [← List.append_assoc] at reaches
  rw [reaches] at whole
  exact ⟨_, List.append_cancel_right whole, Prod.ext rfl reaches⟩

end Units

section Runes

variable {content rest : List Char}

private theorem hexWidth_of_unmarked {c : Char} (unmarked : c ∉ ['x', 'u', 'U']) : hexWidth c = 0 := by
  simp only [List.mem_cons, List.not_mem_nil, or_false, not_or] at unmarked
  simp [hexWidth, unmarked]

theorem escapeBody_iff {body : List Char} :
    EscapeBody body ↔ escape (body ++ '\'' :: rest) = (body, '\'' :: rest) := by
  have stops {p : Char → Bool} (outside : p '\'' = false) :
      Next (fun c => p c = false) ('\'' :: rest) := next_cons.mpr outside
  constructor
  · intro form
    cases form with
    | @hexadecimal mark width digits sized few hex =>
      have fits : mark ≠ '\n' ∧ isOctalDigit mark = false ∧ hexWidth mark = width := by
        simp only [List.mem_cons, Prod.mk.injEq, List.not_mem_nil, or_false] at sized
        rcases sized with ⟨rfl, rfl⟩ | ⟨rfl, rfl⟩ | ⟨rfl, rfl⟩ <;> decide
      obtain ⟨inside, digitless, rfl⟩ := fits
      have read : runUpTo (hexWidth mark) isHexDigit (digits ++ '\'' :: rest) = (digits, '\'' :: rest) :=
        runUpTo_eq_iff.mpr ⟨rfl, few, hex, fun _ => stops (by decide)⟩
      rw [List.cons_append, escape_of_other inside digitless, read]
    | octal nonempty few octal =>
      obtain ⟨c, digits, rfl⟩ := List.exists_cons_of_ne_nil nonempty
      rw [List.cons_append, escape_of_octal (octal c List.mem_cons_self), ← List.cons_append]
      exact runUpTo_eq_iff.mpr ⟨rfl, few, octal, fun _ => stops (by decide)⟩
    | other inside unmarked digitless =>
      rw [List.cons_append, escape_of_other inside digitless, hexWidth_of_unmarked unmarked]
      rfl
  · intro escaped
    cases body with
    | nil =>
      obtain ⟨_, _, read, -⟩ := escape_cons (by decide : '\'' ≠ '\n') rest
      rw [List.nil_append, read] at escaped
      cases escaped
    | cons c digits =>
      have inside : c ≠ '\n' := by
        rintro rfl
        cases escaped
      cases octal : isOctalDigit c with
      | true =>
        rw [List.cons_append, escape_of_octal octal, ← List.cons_append] at escaped
        obtain ⟨-, few, digits, -⟩ := runUpTo_eq_iff.mp escaped
        exact .octal (List.cons_ne_nil _ _) few digits
      | false =>
        rw [List.cons_append, escape_of_other inside octal] at escaped
        simp only [Prod.mk.injEq, List.cons.injEq, true_and] at escaped
        obtain ⟨-, few, hex, -⟩ := runUpTo_eq_iff.mp (Prod.ext escaped.1 escaped.2)
        by_cases marked : c ∈ ['x', 'u', 'U']
        · have sized : (c, hexWidth c) ∈ [('x', 2), ('u', 4), ('U', 8)] := by
            simp only [List.mem_cons, List.not_mem_nil, or_false] at marked
            rcases marked with rfl | rfl | rfl <;> decide
          exact .hexadecimal sized few hex
        · rw [hexWidth_of_unmarked marked] at few
          obtain rfl := List.eq_nil_of_length_eq_zero (Nat.le_zero.mp few)
          exact .other inside marked octal

theorem runeUnit_iff (rest : List Char) :
    RuneUnit content ↔ unit? '\'' (content ++ '\'' :: rest) = some (content, '\'' :: rest) := by
  rw [unit?_eq_some (by decide)]
  constructor
  · intro unit
    cases unit with
    | plain other unescaped inside => exact .inl ⟨_, other, unescaped, inside, rfl, rfl⟩
    | escaped form => exact .inr ⟨_, _, List.cons_append, escapeBody_iff.mp form, rfl⟩
  · rintro (⟨c, other, unescaped, inside, -, rfl⟩ | ⟨after, body, same, escaped, rfl⟩)
    · exact .plain other unescaped inside
    · rw [List.cons_append] at same
      obtain ⟨-, rfl⟩ := List.cons.inj same
      exact .escaped (escapeBody_iff.mpr escaped)

theorem length_units_eq_one_iff {parts : List (List Char)}
    (closed : units '\'' (parts.flatten ++ '\'' :: rest) = (parts, '\'' :: rest)) :
    parts.length = 1 ↔ RuneUnit parts.flatten := by
  rw [runeUnit_iff rest]
  constructor
  · intro one
    obtain ⟨unit, rfl⟩ := List.length_eq_one_iff.mp one
    cases first : unit? '\'' ([unit].flatten ++ '\'' :: rest) with
    | none =>
      rw [units_of_ended first] at closed
      cases (Prod.mk.inj closed).1
    | some found =>
      obtain ⟨head, after⟩ := found
      rw [units_of_unit? first] at closed
      obtain ⟨same, behind⟩ := Prod.mk.inj closed
      obtain ⟨rfl, alone⟩ := List.cons.inj same
      have whole := units_append '\'' after
      rw [alone, behind] at whole
      rw [List.flatten_singleton, ← whole]
      rfl
  · intro single
    have ended : unit? '\'' ('\'' :: rest) = none := unit?_eq_none.mpr (by simp)
    rw [units_of_unit? single, units_of_ended ended] at closed
    rw [← (Prod.mk.inj closed).1]
    rfl

end Runes

end FragmentBounds.Lexeme
