import FragmentBounds.Proofs.Fragment.Respects
import FragmentBounds.Proofs.Fragment.Tracking
import FragmentBounds.Proofs.Recognizer.Moved

/-! A header taken out of its source is the same header behind any keyword of
its construct and blank text, up to the next brace that opens a block. -/
namespace FragmentBounds

def Construct.headerKeyword? : Construct → Option Keyword
  | .ifHeader => some .kwIf
  | .forHeader => some .kwFor
  | .switchHeader => some .kwSwitch
  | _ => none

theorem Construct.extract_header {construct : Construct} {keyword : Keyword}
    (introduces : construct.headerKeyword? = some keyword) (source : String) :
    construct.extract source = (Header.recognizer keyword).recognize source := by
  cases construct <;> cases introduces <;> rfl

namespace Header

open Recognizer

variable {keyword : Keyword}

theorem keyword_of_reads {last : State} {gap lastGap : Gap} {front : List Token}
    (reads : Reads (recognizer keyword) .keyword gap front last lastGap) :
    (last = .keyword ∧ ∀ token ∈ front, token.isTrivia) ∨
      ∃ before word more, front = before ++ word :: more ∧ (∀ token ∈ before, token.isTrivia) ∧
        word.isTrivia = false ∧ word.keyword? = some keyword ∧
        Reads (recognizer keyword) (.clause .start) .closed more last lastGap := by
  induction front generalizing gap with
  | nil =>
    cases reads
    exact .inl ⟨rfl, by simp⟩
  | cons token front ih =>
    cases reads with
    | trivia trivia more =>
      rcases ih more with ⟨rfl, all⟩ | ⟨before, word, rest, rfl, all, spelled⟩
      · exact .inl ⟨rfl, by simpa [trivia] using all⟩
      · exact .inr ⟨token :: before, word, rest, rfl, by simpa [trivia] using all, spelled⟩
    | step significant wellFormed stepped more =>
      obtain ⟨spelled, same⟩ := step_keyword stepped
      cases same
      exact .inr ⟨[], token, front, rfl, by simp, significant, spelled, more⟩

/-- Lexemes that are a header from an offset on, with nothing left to open. -/
def Whole (keyword : Keyword) (offset : Nat) (inside : List Lexeme) : Prop :=
  ∃ gap last lastGap,
    Reads (recognizer keyword) (.clause .start) gap (tokensFrom offset inside) (.clause last) lastGap ∧
      last.nesting.isTopLevel ∧ last.body = none

theorem whole_of_recognize {source : String} {span : Span}
    (recognized : (recognizer keyword).recognize source = .ok span) :
    ∃ before inside after, lexemes source.toList = before ++ inside ++ after ∧
      (inside = [] ∧ keyword ≠ .kwIf ∨ Trimmed inside) ∧
      (∀ lexeme ∈ inside, lexeme.tag.isMalformed = false) ∧
      span = ⟨Text.byteSize (before.flatMap Lexeme.text),
        Text.byteSize (before.flatMap Lexeme.text) + Text.byteSize (inside.flatMap Lexeme.text)⟩ ∧
      Whole keyword (Text.byteSize (before.flatMap Lexeme.text)) inside := by
  obtain ⟨-, front, back, last, lastGap, cut, reads, settles⟩ := recognize_eq_ok recognized
  rcases settles_eq_ok settles with ⟨-, ended⟩ | ⟨brace, pending, rfl, significant, -, stepped⟩
  · exact absurd ended (atEnd_ne_ok keyword last _ span)
  rcases keyword_of_reads reads with ⟨rfl, -⟩ | ⟨trivia, word, more, rfl, -, -, -, clause⟩
  · obtain ⟨-, same⟩ := step_keyword stepped
    cases same
  obtain ⟨final, rfl, covers⟩ := fragment_eq_hull clause
  obtain ⟨topLevel, tag, body, finished⟩ := step_done stepped
  have parts : tokensFrom 0 (lexemes source.toList) = trivia ++ [word] ++ (more ++ brace :: pending) := by
    rw [← tokens, cut]
    simp
  obtain ⟨start, behind, same, -, rest⟩ := tokensFrom_eq_append parts
  rw [Nat.zero_add] at rest
  obtain ⟨read, after, rfl, rfl, tail⟩ := tokensFrom_eq_append rest.symm
  have full : ∀ lexeme ∈ start ++ (read ++ after), lexeme.text ≠ [] := by
    rw [← same]
    exact fun lexeme => text_ne_nil_of_mem_lexemes
  have sound := tag_of_mem_lexemes (P := fun tag => tag.isMalformed = false) clause.wellFormed
  rcases trivia_or_trimmed read with all | ⟨left, inside, right, rfl, leading, trimmed, trailing⟩
  -- Nothing between the keyword and the brace: the fragment is empty, in front of the brace.
  · rw [Clause.start, hull_trivia none (isTrivia_tokensFrom all)] at covers
    rcases finish_eq_ok.mp finished with covered | ⟨-, other, rfl⟩
    · rw [covers] at covered
      cases covered
    · refine ⟨start ++ read, [], after, by simp [same], .inl ⟨rfl, other⟩, by simp, ?_, ?_⟩
      · obtain ⟨lexeme, more, -, rfl, -⟩ := tokensFrom_eq_cons tail.symm
        simp [Span.point, Token.ofLexeme]
      · exact ⟨.closed, .start, .closed, .nil _ _, rfl, rfl⟩
  · rw [Clause.start, hull_tokensFrom _ leading trimmed
      (fun lexeme member => full lexeme (by simp [member])) trailing] at covers
    rcases finish_eq_ok.mp finished with covered | ⟨none, -, -⟩
    · rw [List.append_assoc] at clause
      obtain ⟨first, core⟩ := clause.after_trivia leading
      obtain ⟨ending, core⟩ := core.before_trivia trailing
      have size : Text.byteSize ((start ++ left).flatMap Lexeme.text) =
          Text.byteSize (start.flatMap Lexeme.text) + Text.byteSize (left.flatMap Lexeme.text) := by
        simp
      refine ⟨start ++ left, inside, right ++ after, by simp [same], .inr trimmed, ?_, ?_, ?_⟩
      · exact fun lexeme member => sound lexeme (by simp [member])
      · rw [covers] at covered
        rw [size]
        exact (Option.some.inj covered).symm
      · rw [size]
        exact ⟨first, final, ending, core, topLevel, body⟩
    · rw [none] at covers
      cases covers

theorem Whole.reads {offset : Nat} {inside : List Lexeme} (whole : Whole keyword offset inside)
    (place : Nat) : ∃ gap final lastGap,
      Reads (recognizer keyword) (.clause .start) gap (tokensFrom place inside) (.clause final)
        lastGap ∧
      final.nesting.isTopLevel ∧ final.body = none ∧
      final.fragment = hull none (tokensFrom place inside) := by
  obtain ⟨gap, last, lastGap, reads, topLevel, body⟩ := whole
  have start : State.Matches (.shift offset place) (.clause .start) (.clause .start) :=
    .clause ⟨.empty, rfl, .none, rfl⟩
  obtain ⟨state, moved, same⟩ :=
    (respects keyword).reads reads (aligned_shift offset place inside) start
  cases same with
  | @clause _ final same =>
    obtain ⟨_, same_, covers⟩ := fragment_eq_hull moved
    cases same_
    refine ⟨gap, final, lastGap, moved, same.nesting.isTopLevel_eq.trans topLevel, ?_, covers⟩
    rw [same.body, body]

theorem reads_any_gap {state last : State} {gap lastGap : Gap} {front : List Token}
    (reads : Reads (recognizer keyword) state gap front last lastGap) (also : Gap) :
    ∃ final, Reads (recognizer keyword) state also front last final := by
  induction reads generalizing also with
  | nil state => exact ⟨also, .nil state also⟩
  | @trivia _ _ _ _ token _ trivia _ ih =>
    obtain ⟨final, more⟩ := ih (also.extend token)
    exact ⟨final, .trivia trivia more⟩
  | step significant wellFormed stepped more _ =>
    exact ⟨_, .step significant wellFormed stepped more⟩

theorem run_brace {size : Nat} {clause : Clause} {gap : Gap} {brace : Token}
    {pending : List Token} {span : Span} (topLevel : clause.nesting.isTopLevel)
    (body : clause.body = none) (tag : brace.tag = .opening .brace)
    (finished : clause.finish keyword brace = .ok (.done span)) :
    (recognizer keyword).run size (.clause clause) gap (brace :: pending) = .ok span := by
  have stepped : (recognizer keyword).step (.clause clause) gap brace = .ok (.done span) := by
    change clause.step keyword brace = .ok (.done span)
    rw [Clause.step, if_pos topLevel, if_pos tag, body]
    exact finished
  exact (Settles.of_tag tag rfl rfl stepped).run_eq

theorem Whole.recognize_eq {offset place : Nat} {source : String} {word brace : Lexeme}
    {before inside after behind : List Lexeme} (whole : Whole keyword offset inside)
    (fits : source.utf8ByteSize ≤ maxOffset)
    (cut : lexemes source.toList = word :: (before ++ (inside ++ (after ++ brace :: behind))))
    (spelled : word = ⟨.identifier, keyword.spelling.toList⟩)
    (left : ∀ lexeme ∈ before, lexeme.tag.isTrivia) (right : ∀ lexeme ∈ after, lexeme.tag.isTrivia)
    (tag : brace.tag = .opening .brace)
    (begins : place = word.byteSize + Text.byteSize (before.flatMap Lexeme.text))
    (filled : hull none (tokensFrom place inside) = none → keyword ≠ .kwIf) :
    (recognizer keyword).recognize source = .ok ((hull none (tokensFrom place inside)).getD
      (.point (place + Text.byteSize (inside.flatMap Lexeme.text) +
        Text.byteSize (after.flatMap Lexeme.text)))) := by
  rw [recognize_of_fits _ fits, tokens, cut, tokensFrom, tokensFrom_append, tokensFrom_append,
    tokensFrom_append, tokensFrom, Nat.zero_add, ← begins]
  have named : (Token.ofLexeme 0 word).keyword? = some keyword := by
    simp [spelled, Token.keyword?, Token.ofLexeme, Keyword.ofText?_spelling]
  have begun : (recognizer keyword).step .keyword .closed (.ofLexeme 0 word) =
      .ok (.more (.clause .start)) := by
    change step keyword .keyword .closed (.ofLexeme 0 word) = _
    simp only [step, named, if_true]
  have opened : Reads (recognizer keyword) .keyword .closed [.ofLexeme 0 word] (.clause .start)
      .closed := .step (by rw [spelled]; rfl) (by rw [spelled]; rfl) begun (.nil _ _)
  obtain ⟨gap, skipped⟩ := reads_trivia (recognizer keyword) (.clause .start) .closed
    (@isTrivia_tokensFrom word.byteSize _ left)
  obtain ⟨_, clause, _, moved, topLevel, body, covers⟩ := whole.reads place
  obtain ⟨ending, moved⟩ := reads_any_gap moved gap
  obtain ⟨final, trailing⟩ := reads_trivia (recognizer keyword) (.clause clause) ending
    (@isTrivia_tokensFrom (place + Text.byteSize (inside.flatMap Lexeme.text)) _ right)
  have reads := ((opened.append skipped).append moved).append trailing
  have reached := reads.run_append source.utf8ByteSize
  simp only [List.append_assoc, List.singleton_append] at reached
  refine (reached _).trans (run_brace topLevel body tag ?_)
  rw [finish_eq_ok]
  cases covered : hull none (tokensFrom place inside) with
  | some span => exact .inl (covers.trans covered)
  | none => exact .inr ⟨covers.trans covered, filled covered, rfl⟩

end Header

section Texts

variable (keyword : Keyword) {before text after : List Char} (rest : List Char)

private theorem lexemes_block : lexemes ('\x7b' :: rest) = ⟨.opening .brace, ['\x7b']⟩ :: lexemes rest :=
  lexemes_opener .brace rest

private theorem separates_block : Lexeme.Next (fun c => Lexeme.separates c) ('\x7b' :: rest) := by
  rw [Lexeme.next_cons]
  rfl

private theorem significant_block :
    ∀ lexeme ∈ (lexemes ('\x7b' :: rest)).head?, lexeme.tag.isTrivia = false := by
  rw [lexemes_block]
  simp [Tag.isTrivia]

private theorem lexemes_keyword_blank (blank : Blank before) (nonempty : before ≠ []) :
    lexemes (keyword.spelling.toList ++ (before ++ rest)) =
      ⟨.identifier, keyword.spelling.toList⟩ :: lexemes (before ++ rest) := by
  apply lexemes_keyword
  obtain ⟨c, tail, rfl⟩ := List.exists_cons_of_ne_nil nonempty
  rw [List.cons_append, Lexeme.next_cons]
  rcases blank c (by simp) with rfl | rfl | rfl <;> rfl

private theorem lexemes_empty_header (blank : Blank before) (nonempty : before ≠ [])
    (spaces : Blank after) :
    lexemes (keyword.spelling.toList ++ (before ++ (after ++ '\x7b' :: rest))) =
      ⟨.identifier, keyword.spelling.toList⟩ :: (lexemes (before ++ after) ++
        ⟨.opening .brace, ['\x7b']⟩ :: lexemes rest) := by
  have gap := blank.append spaces
  rw [lexemes_keyword_blank keyword _ blank nonempty, ← List.append_assoc,
    lexemes_blank_append gap (significant_block rest), lexemes_block]

theorem lexemes_header (blank : Blank before) (nonempty : before ≠ [])
    (trimmed : Trimmed (lexemes text))
    (sound : ∀ lexeme ∈ lexemes text, lexeme.tag.isMalformed = false) (spaces : Blank after) :
    lexemes (keyword.spelling.toList ++ (before ++ (text ++ (after ++ '\x7b' :: rest)))) =
      ⟨.identifier, keyword.spelling.toList⟩ :: (lexemes before ++ (lexemes text ++
        (lexemes after ++ ⟨.opening .brace, ['\x7b']⟩ :: lexemes rest))) := by
  have split := lexemes_embedded blank trimmed sound spaces (separates_block rest)
    (significant_block rest)
  rw [List.append_assoc, List.append_assoc] at split
  rw [lexemes_keyword_blank keyword _ blank nonempty, split, lexemes_block]

end Texts

/-- A header is recognised again wherever its text stands: behind its keyword
and some blank text, with a brace to open the block after it. Where the header
is empty, its span is the place of the brace. What follows the brace may be
anything. -/
theorem extract_header_embedded {construct : Construct} {keyword : Keyword} {source : String}
    {span : Span} (introduces : construct.headerKeyword? = some keyword)
    (extracted : construct.extract source = .ok span) :
    ∃ text, span.get? source = some text ∧
      ∀ before after rest : String, Blank before.toList → before ≠ "" → Blank after.toList →
        (keyword.spelling ++ before ++ text ++ after ++ "\x7b" ++ rest).utf8ByteSize ≤ maxOffset →
        construct.extract (keyword.spelling ++ before ++ text ++ after ++ "\x7b" ++ rest) =
          .ok (if text = "" then
            .point (keyword.spelling ++ before ++ after).utf8ByteSize
          else
            ⟨(keyword.spelling ++ before).utf8ByteSize,
              (keyword.spelling ++ before ++ text).utf8ByteSize⟩) := by
  rw [construct.extract_header introduces] at extracted
  obtain ⟨leading, inside, behind, cut, form, sound, rfl, whole⟩ := Header.whole_of_recognize extracted
  obtain ⟨text, covered, rfl, size⟩ := get?_of_parts cut
  refine ⟨text, covered, fun before after rest blank nonempty spaces fits => ?_⟩
  rw [construct.extract_header introduces]
  have parts : (keyword.spelling ++ before ++ text ++ after ++ "\x7b" ++ rest).toList =
      keyword.spelling.toList ++ (before.toList ++ (text.toList ++ (after.toList ++ '\x7b' :: rest.toList))) := by
    simp
  have filled : before.toList ≠ [] := fun none => nonempty (String.toList_eq_nil_iff.mp none)
  have start : (keyword.spelling ++ before).utf8ByteSize =
      Text.byteSize keyword.spelling.toList + Text.byteSize before.toList := by
    rw [String.utf8ByteSize_append, Text.byteSize_toList, Text.byteSize_toList]
  rcases form with ⟨empty, other⟩ | trimmed
  · obtain rfl := String.toList_eq_nil_iff.mp (lexemes_eq_nil.mp empty)
    have gap := blank.append spaces
    have split := lexemes_empty_header keyword rest.toList blank filled spaces
    rw [← List.nil_append (after.toList ++ _), ← String.toList_empty, ← parts,
      ← List.nil_append (_ :: lexemes _), ← List.nil_append ([] ++ _)] at split
    rw [empty] at whole
    have found := whole.recognize_eq fits split rfl (isTrivia_of_mem_lexemes_blank gap) (by simp)
      rfl rfl fun _ => other
    rw [found, if_pos rfl, flatMap_text_lexemes, String.utf8ByteSize_append, start]
    simp [Span.point, Lexeme.byteSize, Text.byteSize_toList, tokensFrom, Nat.add_assoc]
  · have visible : text ≠ "" := by
      rintro rfl
      exact trimmed.nonempty lexemes_nil
    have split := lexemes_header keyword rest.toList blank filled trimmed sound spaces
    rw [← parts] at split
    have place := hull_inside (Text.byteSize keyword.spelling.toList +
      Text.byteSize before.toList) trimmed fun lexeme => text_ne_nil_of_mem_lexemes
    have found := whole.recognize_eq fits split rfl (isTrivia_of_mem_lexemes_blank blank)
      (isTrivia_of_mem_lexemes_blank spaces) rfl rfl fun none => by
        rw [flatMap_text_lexemes] at none
        exact absurd (none.symm.trans place) (by simp)
    rw [flatMap_text_lexemes] at found
    have stop : (keyword.spelling ++ before ++ text).utf8ByteSize =
        Text.byteSize keyword.spelling.toList + Text.byteSize before.toList +
          Text.byteSize ((lexemes text.toList).flatMap Lexeme.text) := by
      rw [String.utf8ByteSize_append, start, size]
    rw [found, if_neg visible, start, stop]
    exact congrArg (fun fragment => Except.ok (Option.getD fragment _)) place

theorem extract_header_embedded_literal :
    Construct.forHeader.extract "for _, x := range []T\x7b1\x7d \x7b a" = .ok ⟨4, 24⟩ ∧
      Construct.forHeader.extract
        ("for" ++ "\n" ++ "_, x := range []T\x7b1\x7d" ++ "\t" ++ "\x7b" ++ "'") = .ok ⟨4, 24⟩ := by
  have extracted : Construct.forHeader.extract "for _, x := range []T\x7b1\x7d \x7b a" =
      .ok ⟨4, 24⟩ := by decide +kernel
  have introduces : Construct.forHeader.headerKeyword? = some .kwFor := rfl
  obtain ⟨text, covers, embedded⟩ := extract_header_embedded introduces extracted
  have same : Span.get? ⟨4, 24⟩ "for _, x := range []T\x7b1\x7d \x7b a" =
      some "_, x := range []T\x7b1\x7d" := by decide +kernel
  obtain rfl := Option.some.inj (covers.symm.trans same)
  have again := embedded "\n" "\t" "'" (by decide +kernel) (by decide) (by decide +kernel)
    (by decide +kernel)
  exact ⟨extracted, again⟩

end FragmentBounds
