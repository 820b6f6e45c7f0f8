import FragmentBounds.Proofs.Fragment.Clean

/-! Clean text as arguments. It is taken whole between blank text, up to a
closing brace or the end, and searched for a type switch without a fault. -/
namespace FragmentBounds

open Recognizer

namespace Arguments

theorem reads_of_tracked {state : State} (gap : Gap) {tokens : List Token} {last : Nesting}
    (tracked : Tracked state.nesting tokens last)
    (sound : ∀ token ∈ tokens, token.tag.isMalformed = false) :
    ∃ final lastGap, Reads recognizer state gap tokens final lastGap ∧ final.nesting = last := by
  generalize same : state.nesting = nesting at tracked
  induction tracked generalizing state gap with
  | nil nesting => exact ⟨state, gap, .nil state gap, same⟩
  | @cons nesting inner last token pending tracked more ih =>
    have rest : ∀ token ∈ pending, token.tag.isMalformed = false := fun other member =>
      sound other (List.mem_cons_of_mem _ member)
    cases trivia : token.isTrivia with
    | true =>
      rw [nesting.track_plain (Tag.isBracket_of_isTrivia trivia)] at tracked
      cases tracked
      obtain ⟨final, lastGap, reads, kept⟩ := ih (gap.extend token) rest same
      exact ⟨final, lastGap, .trivia trivia reads, kept⟩
    | false =>
      have inside : ¬ (state.nesting.isTopLevel ∧ token.tag = .closing .brace) := by
        rintro ⟨topLevel, tag⟩
        rw [same] at topLevel
        rw [Nesting.track, tag] at tracked
        obtain ⟨opener, openers, opened, -⟩ := Nesting.close_eq_ok.mp tracked
        rw [(Nesting.isTopLevel_iff nesting).mp topLevel] at opened
        cases opened
      have stepped : recognizer.step state gap token =
          .ok (.more ⟨inner, extendFragment state.fragment token⟩) := by
        change step state gap token = _
        rw [step, if_neg inside, same, tracked]
        rfl
      have entered : (State.mk inner (extendFragment state.fragment token)).nesting = inner := rfl
      obtain ⟨final, lastGap, reads, kept⟩ := ih .closed rest entered
      exact ⟨final, lastGap, .step trivia (sound token (by simp)) stepped reads, kept⟩

/-- Tokens before which arguments end, and where they start. -/
inductive Ends (size : Nat) : List Token → Nat → Prop
  | atEnd : Ends size [] size
  | brace {token : Token} {more : List Token} (tag : token.tag = .closing .brace) :
      Ends size (token :: more) token.span.start

theorem run_of_balanced {size offset : Nat} {tokens back : List Token}
    (balanced : Balanced (tokens.map Token.tag))
    (sound : ∀ token ∈ tokens, token.tag.isMalformed = false) (ends : Ends size back offset) :
    recognizer.run size recognizer.start .closed (tokens ++ back) =
      .ok ((hull none tokens).getD (.point offset)) := by
  have tracked : Tracked recognizer.start.nesting tokens .empty := balanced.tracked .empty
  obtain ⟨last, gap, reads, kept⟩ := reads_of_tracked .closed tracked sound
  have covers : last.fragment = hull none tokens := fragment_eq_hull reads
  have topLevel : last.nesting.isTopLevel := by rw [kept]; rfl
  rw [reads.run_append]
  cases ends with
  | atEnd =>
    change atEnd last size = _
    rw [atEnd, (Nesting.ensureClosed_eq_ok last.nesting).mpr topLevel, State.span, covers]
    rfl
  | @brace token more tag =>
    have stepped : recognizer.step last gap token =
        .ok (.done ((hull none tokens).getD (.point token.span.start))) := by
      change step last gap token = _
      rw [step, if_pos ⟨topLevel, tag⟩, State.span, covers]
    exact (Settles.of_tag tag rfl rfl stepped).run_eq

end Arguments

theorem eq_of_lexemes {left right : String} (same : lexemes left.toList = lexemes right.toList) :
    left = right := by
  rw [← String.toList_inj, ← flatMap_text_lexemes left.toList, same, flatMap_text_lexemes]

namespace Clean

variable {source text : String} (clean : Clean text)
include clean

theorem sound_between {leading trailing : List Lexeme}
    (left : ∀ lexeme ∈ leading, lexeme.tag.isTrivia)
    (right : ∀ lexeme ∈ trailing, lexeme.tag.isTrivia) :
    ∀ lexeme ∈ leading ++ lexemes text.toList ++ trailing, lexeme.tag.isMalformed = false := by
  intro lexeme member
  rcases List.mem_append.mp member with member | member
  · rcases List.mem_append.mp member with member | member
    · exact Tag.isMalformed_of_isTrivia (left lexeme member)
    · exact clean.sound lexeme member
  · exact Tag.isMalformed_of_isTrivia (right lexeme member)

theorem balanced_between {leading trailing : List Lexeme}
    (left : ∀ lexeme ∈ leading, lexeme.tag.isTrivia)
    (right : ∀ lexeme ∈ trailing, lexeme.tag.isTrivia) :
    Balanced ((leading ++ lexemes text.toList ++ trailing).map Lexeme.tag) := by
  have plain {lexemes : List Lexeme} (trivia : ∀ lexeme ∈ lexemes, lexeme.tag.isTrivia) :
      Balanced (lexemes.map Lexeme.tag) := by
    refine .of_plain fun tag inside => ?_
    obtain ⟨lexeme, member, rfl⟩ := List.mem_map.mp inside
    exact Tag.isBracket_of_isTrivia (trivia lexeme member)
  rw [List.map_append, List.map_append]
  exact ((plain left).append clean.balanced).append (plain right)

theorem arguments_of_cut (fits : source.utf8ByteSize ≤ maxOffset)
    {leading trailing ending : List Lexeme}
    (cut : lexemes source.toList = leading ++ lexemes text.toList ++ trailing ++ ending)
    (left : ∀ lexeme ∈ leading, lexeme.tag.isTrivia)
    (right : ∀ lexeme ∈ trailing, lexeme.tag.isTrivia)
    (ends : ∀ lexeme ∈ ending.head?, lexeme.tag = .closing .brace) :
    arguments source = .ok text := by
  let read := leading ++ lexemes text.toList ++ trailing
  have balanced : Balanced ((tokensFrom 0 read).map Token.tag) := by
    rw [map_tag_tokensFrom]
    exact clean.balanced_between left right
  have sound : ∀ token ∈ tokensFrom 0 read, token.tag.isMalformed = false :=
    tag_of_mem_tokensFrom (P := fun tag => tag.isMalformed = false) (clean.sound_between left right)
  obtain ⟨offset, stops⟩ : ∃ offset, Arguments.Ends source.utf8ByteSize
      (tokensFrom (0 + Text.byteSize (read.flatMap Lexeme.text)) ending) offset := by
    cases ending with
    | nil => exact ⟨_, .atEnd⟩
    | cons brace more => exact ⟨_, .brace (ends brace (by simp))⟩
  have found : Arguments.recognizer.recognize source =
      .ok ((hull none (tokensFrom 0 read)).getD (.point offset)) := by
    rw [recognize_of_fits _ fits, tokens, cut, tokensFrom_append]
    exact Arguments.run_of_balanced balanced sound stops
  have sliced : arguments source =
      .ok (((hull none (tokensFrom 0 read)).getD (.point offset)).slice source) := by
    rw [arguments, Construct.extract, found]
    rfl
  rw [sliced]
  -- Empty text leaves trivia only, and its span is a place behind it.
  rcases clean.trimmed with rfl | trimmed
  · have nothing : hull none (tokensFrom 0 read) = none := by
      refine hull_trivia none (isTrivia_tokensFrom ?_)
      simpa [read, lexemes_nil, or_imp, forall_and] using ⟨left, right⟩
    rw [nothing, Option.getD_none, Span.slice_point]
  · have parts : lexemes source.toList = leading ++ lexemes text.toList ++ (trailing ++ ending) := by
      rw [cut, List.append_assoc]
    obtain ⟨other, covers, same, -⟩ := get?_of_parts parts
    obtain rfl := eq_of_lexemes same
    rw [hull_tokensFrom 0 left trimmed (fun lexeme => text_ne_nil_of_mem_lexemes) right,
      Option.getD_some, Span.slice, Nat.zero_add, covers]
    rfl

theorem arguments_between {before after rest : String} (blank : Blank before.toList)
    (spaces : Blank after.toList) (ends : ∀ c ∈ rest.toList.head?, c = '\x7d')
    (fits : (before ++ text ++ after ++ rest).utf8ByteSize ≤ maxOffset) :
    arguments (before ++ text ++ after ++ rest) = .ok text := by
  have separated : Lexeme.Next (fun c => Lexeme.separates c) rest.toList := by
    intro c next
    rw [ends c next]
    rfl
  have brace : ∀ lexeme ∈ (lexemes rest.toList).head?, lexeme.tag = .closing .brace := by
    cases shape : rest.toList with
    | nil => simp [lexemes_nil]
    | cons c more =>
      obtain rfl := ends c (by simp [shape])
      have closes : lexemes ('\x7d' :: more) = ⟨.closing .brace, ['\x7d']⟩ :: lexemes more :=
        lexemes_closer .brace more
      simp [closes]
  have significant : ∀ lexeme ∈ (lexemes rest.toList).head?, lexeme.tag.isTrivia = false := by
    intro lexeme member
    rw [brace lexeme member]
    rfl
  have shape : (before ++ text ++ after ++ rest).toList =
      before.toList ++ text.toList ++ after.toList ++ rest.toList := by simp
  rcases clean.trimmed with rfl | trimmed
  · have gap := blank.append spaces
    have cut : lexemes (before ++ "" ++ after ++ rest).toList =
        lexemes (before.toList ++ after.toList) ++ lexemes "".toList ++ [] ++ lexemes rest.toList := by
      rw [shape]
      simpa [lexemes_nil] using lexemes_blank_append gap significant
    exact clean.arguments_of_cut fits cut (isTrivia_of_mem_lexemes_blank gap) (by simp) brace
  · have cut := lexemes_embedded blank trimmed clean.sound spaces separated significant
    rw [← shape, ← List.append_assoc, ← List.append_assoc] at cut
    exact clean.arguments_of_cut fits cut (isTrivia_of_mem_lexemes_blank blank)
      (isTrivia_of_mem_lexemes_blank spaces) brace

end Clean

namespace TypeSwitch

theorem recognize_of_balanced {source : String} (fits : source.utf8ByteSize ≤ maxOffset)
    (sound : ∀ token ∈ tokens source, token.tag.isMalformed = false)
    (balanced : Balanced ((tokens source).map Token.tag)) :
    ∃ found, recognizer.recognize source = .ok found := by
  obtain ⟨front, back, last, gap, cut, reads, settles⟩ :=
    reads_settles recognizer source.utf8ByteSize recognizer.start .closed (tokens source)
  rw [cut] at balanced sound
  obtain ⟨middle, whole, behind⟩ := (balanced.tracked .empty).split
  have kept : middle = last.nesting := whole.unique (tracks.tracked reads)
  rw [kept] at behind
  rw [recognize_of_fits _ fits]
  cases result : recognizer.run source.utf8ByteSize recognizer.start .closed (tokens source) with
  | ok found => exact ⟨found, rfl⟩
  | error fault =>
    rw [result] at settles
    generalize same : Except.error fault = outcome at settles
    cases settles with
    | atEnd =>
      have unclosed := ensureClosed_of_atEnd_error same.symm
      have closed : last.nesting.ensureClosed = .ok () := by
        rw [← behind.eq_of_plain (by simp)]
        rfl
      rw [closed] at unclosed
      cases unclosed
    | malformed malformed =>
      have wellFormed := sound _ (List.mem_append_right _ List.mem_cons_self)
      simp [malformed, Tag.isMalformed] at wellFormed
    | fault _ _ stepped =>
      cases behind with
      | cons tracked _ => simp [track_of_step_error stepped] at tracked
    | done => cases same

end TypeSwitch

/-- Whatever is extracted is clean text: as arguments it is taken whole, on its
own and between blank text with anything behind the closing brace, and the
search for a type switch in it finds no fault. -/
theorem extract_clean {construct : Construct} {source : String} {span : Span}
    (extracted : construct.extract source = .ok span) :
    ∃ text, span.get? source = some text ∧ Clean text ∧ arguments text = .ok text ∧
      (∀ before after rest : String, Blank before.toList → Blank after.toList →
        (before ++ text ++ after ++ "\x7d" ++ rest).utf8ByteSize ≤ maxOffset →
        arguments (before ++ text ++ after ++ "\x7d" ++ rest) = .ok text) ∧
      ∃ found, TypeSwitch.isTypeSwitchGuard text = .ok found := by
  obtain ⟨text, covers, clean⟩ := clean_of_extract extracted
  have fits : text.utf8ByteSize ≤ maxOffset :=
    Nat.le_trans (Span.size_le_of_get? covers) (fits_of_extract extracted)
  refine ⟨text, covers, clean, ?_, ?_, ?_⟩
  · have whole : "" ++ text ++ "" ++ "" = text := by simp
    have nothing : Blank "".toList := by simp [Blank]
    rw [← whole] at fits
    have taken := clean.arguments_between nothing nothing (by simp) fits
    rwa [whole] at taken
  · intro before after rest blank spaces fits
    rw [String.append_assoc] at fits ⊢
    exact clean.arguments_between blank spaces (by simp) fits
  · refine TypeSwitch.recognize_of_balanced fits ?_ ?_
    · exact tag_of_mem_tokensFrom (P := fun tag => tag.isMalformed = false) clean.sound
    · rw [tokens, map_tag_tokensFrom]
      exact clean.balanced

theorem extract_clean_guard :
    Construct.switchHeader.extract "switch x := y.(type) \x7b" = .ok ⟨7, 20⟩ ∧
      arguments ("\n" ++ "x := y.(type)" ++ " " ++ "\x7d" ++ "'") = .ok "x := y.(type)" ∧
        ∃ found, TypeSwitch.isTypeSwitchGuard "x := y.(type)" = .ok found := by
  have extracted : Construct.switchHeader.extract "switch x := y.(type) \x7b" = .ok ⟨7, 20⟩ := by
    decide +kernel
  obtain ⟨text, covers, -, -, embedded, searched⟩ := extract_clean extracted
  have same : Span.get? ⟨7, 20⟩ "switch x := y.(type) \x7b" = some "x := y.(type)" := by
    decide +kernel
  obtain rfl := Option.some.inj (covers.symm.trans same)
  have taken := embedded "\n" " " "'" (by decide +kernel) (by decide +kernel) (by decide +kernel)
  exact ⟨extracted, taken, searched⟩

end FragmentBounds
