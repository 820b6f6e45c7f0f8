import FragmentBounds.Proofs.Token.ReadAt

/-! Names, as they are told from their characters and as they are scanned. A text
is a name if it is one identifier from end to end and no keyword. -/
namespace FragmentBounds

open Lexeme

section Keywords

private theorem spelling_of_mem_ofSize (size : Nat) :
    ∀ entry ∈ Keyword.ofSize size, entry.2.spelling = entry.1 := by
  unfold Keyword.ofSize
  split <;> decide

theorem Keyword.lookup_eq_some {text : String} {keyword : Keyword} :
    Keyword.lookup text = some keyword ↔ keyword.spelling = text := by
  constructor
  · intro found
    rw [Keyword.lookup] at found
    split at found
    · obtain ⟨front, back, cut, -⟩ := List.lookup_eq_some_iff.mp found
      exact spelling_of_mem_ofSize _ _ (cut ▸ List.mem_append_right front List.mem_cons_self)
    · cases found
  · rintro rfl
    cases keyword <;> decide +kernel

theorem Keyword.lookup_eq (text : String) : Keyword.lookup text = Keyword.ofText? text := by
  apply Option.ext
  intro keyword
  rw [Keyword.lookup_eq_some, Keyword.ofText?_eq_some]

end Keywords

section Words

theorem ascii_isLetterOrDigit (byte : UInt8) :
    Checked.ascii isLetterOrDigit byte = isWordByte byte := by
  have all : ∀ n < 256, Checked.ascii isLetterOrDigit (UInt8.ofNat n) = isWordByte (UInt8.ofNat n) := by
    decide +kernel
  have same := all byte.toNat byte.toNat_lt
  rwa [UInt8.ofNat_toNat] at same

variable {source : String} {text : List Char}

private theorem first?_of_letter {c : Char} {run : List Char} (letter : isLetter c)
    (inside : ∀ d ∈ run, isLetterOrDigit d) :
    first? (c :: run) = some (⟨.identifier, c :: run⟩, []) := by
  have plain : Checked.starters.contains c = false := by
    have none : Checked.starters.all fun a => !isLetter a := by decide +kernel
    refine Bool.eq_false_iff.mpr fun starter => ?_
    have other := List.all_eq_true.mp none c (by simpa using starter)
    simp [letter] at other
  refine first?_eq_some.mpr (.word (Checked.trivia?_of_stray plain) (word?_eq_some.mpr ?_))
  exact ⟨c, run, rfl, by rw [List.append_nil], letter, inside, next_nil _⟩

theorem lexemes_eq_identifier : lexemes text = [⟨.identifier, text⟩] ↔
    ∃ c run, text = c :: run ∧ isLetter c ∧ ∀ d ∈ run, isLetterOrDigit d := by
  constructor
  · intro alone
    obtain ⟨rest, first, whole, -⟩ := lexemes_eq_cons alone
    have ended : rest = [] := by simpa using whole
    rw [ended] at first
    obtain ⟨c, run, -, parts, letter, inside, -⟩ := word?_eq_some.mp (word?_of_first? first rfl)
    exact ⟨c, run, by simpa using parts, letter, inside⟩
  · rintro ⟨c, run, rfl, letter, inside⟩
    rw [lexemes_of_first? (first?_of_letter letter inside), lexemes_nil]

private theorem eq_identifier {lexeme : Lexeme} (alone : lexemes text = [lexeme])
    (identifier : lexeme.tag = .identifier) : lexeme = ⟨.identifier, text⟩ := by
  have whole := flatMap_text_lexemes text
  rw [alone, List.flatMap_singleton] at whole
  rw [← identifier, ← whole]

theorem isName_iff : isName source ↔
    lexemes source.toList = [⟨.identifier, source.toList⟩] ∧ Keyword.ofText? source = none := by
  rw [lexemes_eq_identifier, isName]
  cases source.toList with
  | nil => simp
  | cons c run =>
    simp only [Bool.and_eq_true, List.all_eq_true, Option.isNone_iff_eq_none, List.cons.injEq]
    constructor
    · rintro ⟨⟨letter, inside⟩, plain⟩
      exact ⟨⟨c, run, ⟨rfl, rfl⟩, letter, inside⟩, plain⟩
    · rintro ⟨⟨_, _, ⟨rfl, rfl⟩, letter, inside⟩, plain⟩
      exact ⟨⟨letter, inside⟩, plain⟩

theorem pieces_eq_identifier :
    pieces text = [⟨.identifier, Text.byteSize text⟩] ↔ lexemes text = [⟨.identifier, text⟩] := by
  constructor
  · intro alone
    obtain ⟨lexeme, single, same⟩ := List.map_eq_singleton_iff.mp alone
    rw [single, eq_identifier single (congrArg Piece.tag same)]
  · intro alone
    rw [pieces, alone]
    rfl

private theorem isName_ofLexeme (start : Nat) :
    (Token.ofLexeme start ⟨.identifier, source.toList⟩).isName ↔ Keyword.ofText? source = none := by
  simp [Token.isName_iff, Token.keyword?, Token.ofLexeme]

theorem isName_iff_tokens : isName source ↔ ∃ token, tokens source = [token] ∧ token.isName := by
  rw [isName_iff]
  constructor
  · rintro ⟨alone, plain⟩
    exact ⟨_, by rw [tokens, alone, tokensFrom, tokensFrom], (isName_ofLexeme 0).mpr plain⟩
  · rintro ⟨token, alone, name⟩
    obtain ⟨lexeme, more, parts, rfl, ended⟩ := tokensFrom_eq_cons alone
    have single : more = [] := by
      cases more with
      | nil => rfl
      | cons => cases ended
    rw [single] at parts
    obtain rfl := eq_identifier parts (Token.isName_iff.mp name).1
    exact ⟨parts, (isName_ofLexeme 0).mp name⟩

private theorem checked_eq_singleton {pending : List Token} {token : Token}
    (sound : token.tag.isMalformed = false) :
    TokenStream.checked pending = [.ok token] ↔ pending = [token] := by
  constructor
  · intro alone
    cases pending with
    | nil => cases alone
    | cons first pending =>
      rw [TokenStream.checked] at alone
      cases same : first.check with
      | error fault => simp [same] at alone
      | ok other =>
        obtain ⟨-, rfl⟩ := Token.check_eq_ok.mp same
        simp only [same, List.cons.injEq, Except.ok.injEq] at alone
        obtain ⟨rfl, ended⟩ := alone
        cases pending with
        | nil => rfl
        | cons next pending =>
          rw [TokenStream.checked] at ended
          split at ended <;> cases ended
  · rintro rfl
    rw [TokenStream.checked, Token.check_eq_ok.mpr ⟨sound, rfl⟩, TokenStream.checked]

theorem isName_iff_stream (fits : source.utf8ByteSize ≤ maxOffset) : isName source ↔
    ∃ stream token, TokenStream.ofSource source = .ok stream ∧ stream.toList = [.ok token] ∧
      token.isName := by
  have begun : TokenStream.ofSource source = .ok ⟨source, tokens source, false⟩ :=
    if_neg (Nat.not_lt.mpr fits)
  rw [isName_iff_tokens]
  have sound {token : Token} (name : token.isName) : token.tag.isMalformed = false := by
    rw [(Token.isName_iff.mp name).1]
    rfl
  constructor
  · rintro ⟨token, alone, name⟩
    exact ⟨_, token, begun, (checked_eq_singleton (sound name)).mpr alone, name⟩
  · rintro ⟨stream, token, also, alone, name⟩
    cases begun.symm.trans also
    exact ⟨token, (checked_eq_singleton (sound name)).mp alone, name⟩

theorem isName_iff_hands (fits : source.utf8ByteSize ≤ maxOffset) : isName source ↔
    ∃ token, Checked.Hands (.ofSource source) token ⟨source, source.utf8ByteSize⟩ ∧ token.isName := by
  have here : Text.splitBytes? 0 source.toList = some ([], source.toList) :=
    Text.splitBytes?_eq_some.mpr ⟨rfl, rfl⟩
  rw [isName_iff]
  constructor
  · rintro ⟨alone, plain⟩
    obtain ⟨rest, first, -, -⟩ := lexemes_eq_cons alone
    have hands := (readAt_of_first? here first).onBytes fits
    rw [Nat.zero_add, Lexeme.byteSize, Text.byteSize_toList] at hands
    exact ⟨_, hands, (isName_ofLexeme 0).mpr plain⟩
  · rintro ⟨token, hands, name⟩
    cases first : first? source.toList with
    | none =>
      have empty : source.utf8ByteSize = 0 := by
        rw [← Text.byteSize_toList, first?_eq_none.mp first, Text.byteSize_nil]
      have ended := (Checked.exhausts_nextToken fits).2
      rw [empty] at ended
      obtain ⟨rfl, -⟩ := Prod.mk.inj (Except.ok.inj (hands.symm.trans ended))
      cases name
    | some found =>
      obtain ⟨lexeme, rest⟩ := found
      have also := (readAt_of_first? here first).onBytes fits
      obtain ⟨rfl, there⟩ := Prod.mk.inj (Except.ok.inj (hands.symm.trans also))
      have size := congrArg Cursor.pos there
      have whole := congrArg Text.byteSize (first?_cuts first).2
      rw [Text.byteSize_append, Text.byteSize_toList] at whole
      have ended : rest = [] := Text.byteSize_eq_zero.mp (by simp [Lexeme.byteSize] at size; omega)
      have alone : lexemes source.toList = [lexeme] := by
        rw [lexemes_of_first? first, ended, lexemes_nil]
      obtain rfl := eq_identifier alone (Token.isName_iff.mp name).1
      exact ⟨alone, (isName_ofLexeme 0).mp name⟩

end Words

/-- A text is a name just if it is scanned as one identifier and no keyword is
spelled so; streams and machines, which read no more than offsets reach, agree. -/
theorem isName_iff_scanned (source : String) :
    (isName source ↔ pieces source.toList = [⟨.identifier, source.utf8ByteSize⟩] ∧
      ∀ keyword : Keyword, keyword.spelling ≠ source) ∧
    (isName source ↔ ∃ token, tokens source = [token] ∧ token.isName) ∧
    (source.utf8ByteSize ≤ maxOffset →
      (isName source ↔ ∃ stream token, TokenStream.ofSource source = .ok stream ∧
        stream.toList = [.ok token] ∧ token.isName) ∧
      (isName source ↔ ∃ token,
        Checked.Hands (.ofSource source) token ⟨source, source.utf8ByteSize⟩ ∧ token.isName)) ∧
    (∀ byte, Checked.ascii isLetterOrDigit byte = isWordByte byte) ∧
    Keyword.lookup source = Keyword.ofText? source ∧
    ∀ keyword, Keyword.lookup source = some keyword ↔ keyword.spelling = source := by
  refine ⟨?_, isName_iff_tokens, fun fits => ⟨isName_iff_stream fits, isName_iff_hands fits⟩,
    ascii_isLetterOrDigit, Keyword.lookup_eq source, fun _ => Keyword.lookup_eq_some⟩
  rw [isName_iff, ← pieces_eq_identifier, Text.byteSize_toList]
  refine and_congr_right fun _ => ?_
  simp only [Option.eq_none_iff_forall_ne_some, ne_eq, Keyword.ofText?_eq_some]

/-- A name of letters and digits of one to three bytes. -/
theorem isName_iff_scanned_digit : "_é९".utf8ByteSize ≤ maxOffset ∧ isName "_é९" ∧
    pieces "_é९".toList = [⟨.identifier, 6⟩] ∧
    ∃ token, Checked.Hands (.ofSource "_é९") token ⟨"_é९", 6⟩ ∧ token.isName := by
  have fits : "_é९".utf8ByteSize ≤ maxOffset := by decide
  have name : isName "_é९" := by decide +kernel
  obtain ⟨whole, -, small, -⟩ := isName_iff_scanned "_é९"
  exact ⟨fits, name, (whole.mp name).1, (small fits).2.mp name⟩

end FragmentBounds
