import FragmentBounds.Proofs.Fragment.HeaderEmbedding
import FragmentBounds.Proofs.Fragment.Steps
import FragmentBounds.Proofs.Token.Extent

/-! The first significant token of a source decides what it can be read as. The
dispatch and each machine look at that token in a way of their own, and they
agree. -/
namespace FragmentBounds

def leadingKeyword? (source : String) : Option Keyword :=
  (significantTokens source).head?.bind Token.keyword?

/-- The fault is that the keyword of a statement was not found. -/
def Fault.asksForKeyword : Fault → Bool
  | .expected (.keyword _) _ _ | .expected .caseLabel _ _ => true
  | _ => false

variable {source : String} {token : Token} {keyword : Keyword} {fault : Fault} {span : Span}

theorem Token.keyword?_of_malformed {kind : Malformation} (tag : token.tag = .malformed kind) :
    token.keyword? = none := by
  simp [keyword?, tag]

namespace Recognizer

variable {σ α : Type} {machine : Recognizer σ α}

theorem run_leading (machine : Recognizer σ α) (size : Nat) (state : σ) (gap : Gap)
    (tokens : List Token) :
    ((tokens.filter fun token => !token.isTrivia) = [] ∧
        machine.run size state gap tokens = machine.atEnd state size) ∨
      ∃ first more lastGap, (tokens.filter fun token => !token.isTrivia).head? = some first ∧
        first.isTrivia = false ∧
        machine.run size state gap tokens = machine.run size state lastGap (first :: more) := by
  induction tokens generalizing gap with
  | nil => exact .inl ⟨rfl, rfl⟩
  | cons token tokens ih =>
    cases trivia : token.isTrivia with
    | true =>
      rw [List.filter_cons_of_neg (by simp [trivia]), run_trivia _ _ _ _ _ trivia]
      exact ih (gap.extend token)
    | false =>
      rw [List.filter_cons_of_pos (by simp [trivia])]
      exact .inr ⟨token, tokens, gap, rfl, trivia, rfl⟩

theorem leading_of_recognize {result : α} (recognized : machine.recognize source = .ok result)
    (needs : ∀ size, machine.atEnd machine.start size ≠ .ok result) :
    ∃ first gap outcome, leadingKeyword? source = first.keyword? ∧
      machine.step machine.start gap first = .ok outcome := by
  have fits := (recognize_eq_ok recognized).1
  rw [recognize_of_fits machine fits] at recognized
  rcases run_leading machine source.utf8ByteSize machine.start .closed (tokens source) with
    ⟨-, same⟩ | ⟨first, more, gap, leads, significant, same⟩
  · exact absurd (same.symm.trans recognized) (needs _)
  · rw [same] at recognized
    cases malformed : first.tag.isMalformed with
    | true =>
      obtain ⟨kind, tag⟩ := Tag.isMalformed_iff.mp malformed
      rw [run_malformed _ _ _ _ _ tag] at recognized
      cases recognized
    | false =>
      rw [run_significant _ _ _ _ _ significant malformed] at recognized
      obtain ⟨outcome, stepped, -⟩ := bind_eq_ok.mp recognized
      refine ⟨first, gap, outcome, ?_, stepped⟩
      rw [leadingKeyword?, significantTokens, leads]
      rfl

/-- In such states the machine asks for no keyword, and it does not leave them. -/
structure PastKeyword (machine : Recognizer σ α) (P : σ → Prop) : Prop where
  keeps : ∀ {state gap token next}, P state → machine.step state gap token = .ok (.more next) →
    P next
  steps : ∀ {state gap token fault}, P state → machine.step state gap token = .error fault →
    fault.asksForKeyword = false
  ends : ∀ {state size fault}, P state → machine.atEnd state size = .error fault →
    fault.asksForKeyword = false

theorem PastKeyword.run {P : σ → Prop} (past : machine.PastKeyword P) {state : σ} {gap : Gap}
    {size : Nat} {tokens : List Token} (start : P state)
    (failed : machine.run size state gap tokens = .error fault) : fault.asksForKeyword = false := by
  obtain ⟨front, back, last, lastGap, -, reads, settles⟩ := reads_settles machine size state gap tokens
  have kept : P last := reads.invariant start fun _ _ _ _ _ => past.keeps
  rw [failed] at settles
  generalize same : Except.error fault = outcome at settles
  cases settles with
  | atEnd => exact past.ends kept same.symm
  | malformed tag =>
    cases same
    rfl
  | fault _ _ stepped =>
    cases same
    exact past.steps kept stepped
  | done => cases same

theorem PastKeyword.recognize {P : σ → Prop} (past : machine.PastKeyword P)
    (leads : leadingKeyword? source = some keyword)
    (begins : ∀ gap token, token.keyword? = some keyword →
      ∃ next, machine.step machine.start gap token = .ok (.more next) ∧ P next)
    (failed : machine.recognize source = .error fault) : fault.asksForKeyword = false := by
  rcases Nat.lt_or_ge maxOffset source.utf8ByteSize with large | fits
  · rw [Recognizer.recognize, TokenStream.ofSource, if_pos large] at failed
    cases failed
    rfl
  rw [recognize_of_fits machine fits] at failed
  obtain ⟨first, head, spelled⟩ := Option.bind_eq_some_iff.mp leads
  rcases run_leading machine source.utf8ByteSize machine.start .closed (tokens source) with
    ⟨none, -⟩ | ⟨other, more, gap, also, significant, same⟩
  · rw [significantTokens, none] at head
    cases head
  obtain rfl : first = other := Option.some.inj (head.symm.trans also)
  have sound : first.tag.isMalformed = false := by
    rw [Token.tag_of_keyword? spelled]
    rfl
  obtain ⟨next, stepped, holds⟩ := begins gap first spelled
  rw [same, run_significant _ _ _ _ _ significant sound, stepped] at failed
  exact past.run holds failed

end Recognizer

namespace Nesting

theorem asksForKeyword_of_track {nesting : Nesting} (failed : nesting.track token = .error fault) :
    fault.asksForKeyword = false := by
  obtain ⟨bracket, -, closes⟩ := track_eq_error.mp failed
  rcases close_eq_error.mp closes with ⟨-, rfl⟩ | ⟨_, _, -, -, rfl⟩ <;> rfl

theorem asksForKeyword_of_ensureClosed {nesting : Nesting}
    (failed : nesting.ensureClosed = .error fault) : fault.asksForKeyword = false := by
  obtain ⟨_, _, -, rfl⟩ := ensureClosed_eq_error.mp failed
  rfl

end Nesting

namespace Header

theorem leadingKeyword?_of_recognize (recognized : (recognizer keyword).recognize source = .ok span) :
    leadingKeyword? source = some keyword := by
  obtain ⟨first, gap, outcome, leads, stepped⟩ :=
    Recognizer.leading_of_recognize recognized fun size => atEnd_ne_ok keyword .keyword size span
  rw [leads]
  exact (step_keyword stepped).1

theorem pastKeyword (keyword : Keyword) :
    (recognizer keyword).PastKeyword fun state => ∃ clause, state = .clause clause where
  keeps := by
    rintro _ gap token next ⟨clause, rfl⟩ stepped
    obtain ⟨after, rfl, -⟩ := step_more stepped
    exact ⟨after, rfl⟩
  steps := by
    rintro _ gap token fault ⟨clause, rfl⟩ stepped
    rcases step_clause_error stepped with failed | rfl
    · exact Nesting.asksForKeyword_of_track failed
    · rfl
  ends := by
    rintro _ size fault ⟨clause, rfl⟩ ended
    rcases bind_eq_error.mp ended with failed | ⟨_, _, same⟩
    · exact Nesting.asksForKeyword_of_ensureClosed failed
    · cases same
      rfl

theorem asksForKeyword_of_recognize (leads : leadingKeyword? source = some keyword)
    (failed : (recognizer keyword).recognize source = .error fault) :
    fault.asksForKeyword = false := by
  refine (pastKeyword keyword).recognize leads (fun gap token spelled => ?_) failed
  refine ⟨.clause .start, ?_, .start, rfl⟩
  simp [recognizer, step, spelled]

end Header

namespace Label

theorem leadingKeyword?_of_recognize (recognized : recognizer.recognize source = .ok span) :
    leadingKeyword? source = some .kwCase ∨ leadingKeyword? source = some .kwDefault := by
  obtain ⟨first, gap, outcome, leads, stepped⟩ :=
    Recognizer.leading_of_recognize recognized fun size => atEnd_ne_ok .keyword size span
  rw [leads]
  cases outcome with
  | more next =>
    rcases step_more stepped with ⟨-, spelled, -⟩ | ⟨-, spelled, -⟩ | ⟨_, _, none, -⟩
    · exact .inr spelled
    · exact .inl spelled
    · cases none
  | done span => rcases (step_done stepped).2 with ⟨_, none, -⟩ | ⟨_, none, -⟩ <;> cases none

theorem pastKeyword : recognizer.PastKeyword (· ≠ .keyword) where
  keeps := by
    intro state gap token next past stepped
    rcases step_more stepped with ⟨none, -⟩ | ⟨none, -⟩ | ⟨_, _, -, -, rfl⟩
    · exact absurd none past
    · exact absurd none past
    · nofun
  steps := by
    intro state gap token fault past stepped
    rcases step_error_cases stepped with failed | ⟨what, rfl, ⟨same, -⟩ | rfl | rfl⟩
    · exact Nesting.asksForKeyword_of_track failed
    · exact absurd same past
    · rfl
    · rfl
  ends := by
    intro state size fault past ended
    cases state with
    | keyword => exact absurd rfl past
    | colon keyword =>
      cases ended
      rfl
    | clause clause =>
      rcases bind_eq_error.mp ended with failed | ⟨_, _, same⟩
      · exact Nesting.asksForKeyword_of_ensureClosed failed
      · cases same
        rfl

theorem asksForKeyword_of_recognize
    (leads : leadingKeyword? source = some .kwCase ∨ leadingKeyword? source = some .kwDefault)
    (failed : recognizer.recognize source = .error fault) : fault.asksForKeyword = false := by
  rcases leads with leads | leads
  · refine pastKeyword.recognize leads (fun gap token spelled => ?_) failed
    exact ⟨.clause ⟨token.span, .empty, true⟩, by simp [recognizer, step, spelled], by simp⟩
  · refine pastKeyword.recognize leads (fun gap token spelled => ?_) failed
    exact ⟨.colon token.span, by simp [recognizer, step, spelled], by simp⟩

end Label

namespace Expression

theorem ofKeyword?_of_operandReaction {outcome : Outcome}
    (settled : Phase.operandReaction token = .ok outcome) :
    token.keyword?.bind Construct.ofKeyword? = none := by
  cases spelled : token.keyword? with
  | none => rfl
  | some keyword =>
    simp only [Phase.operandReaction, Token.tag_of_keyword? spelled, spelled] at settled
    cases keyword <;> first | rfl | cases settled

theorem ofKeyword?_of_recognize (recognized : recognizer.recognize source = .ok span) :
    (leadingKeyword? source).bind Construct.ofKeyword? = none := by
  obtain ⟨first, gap, outcome, leads, stepped⟩ :=
    Recognizer.leading_of_recognize recognized fun size ended => by
      have complete := (atEnd_ok ended).2.1
      cases complete
  rw [leads]
  obtain ⟨reaction, settled, -⟩ := bind_eq_ok.mp stepped
  have begins : Phase.settle .operand .endOfInput gap first = .ok reaction := settled
  rw [Phase.settle_operand] at begins
  exact ofKeyword?_of_operandReaction begins

end Expression

namespace Construct

private theorem significantIn_keyword? (size : Nat) (tokens : List Token) :
    (TokenStream.significantIn size tokens).1.toOption.bind Token.keyword? =
      (tokens.filter fun token => !token.isTrivia).head?.bind Token.keyword? := by
  induction tokens with
  | nil => rfl
  | cons token tokens ih =>
    cases trivia : token.isTrivia with
    | true =>
      rw [TokenStream.significantIn, if_pos trivia, ih, List.filter_cons_of_neg (by simp [trivia])]
    | false =>
      rw [TokenStream.significantIn, if_neg (by simp [trivia]),
        List.filter_cons_of_pos (by simp [trivia])]
      cases sound : token.check with
      | ok same =>
        obtain ⟨-, rfl⟩ := Token.check_eq_ok.mp sound
        rfl
      | error fault =>
        -- The stream gives a fault here and the list a token, and neither spells a keyword.
        obtain ⟨kind, tag, -⟩ := Token.check_eq_error.mp sound
        exact (Token.keyword?_of_malformed tag).symm

theorem detect_eq (fits : source.utf8ByteSize ≤ maxOffset) :
    detect source = ((leadingKeyword? source).bind ofKeyword?).getD .expression := by
  rw [detect, TokenStream.ofSource, if_neg (Nat.not_lt.mpr fits), leadingKeyword?,
    significantTokens, ← significantIn_keyword? source.utf8ByteSize]
  rfl

theorem leadingKeyword?_of_detect {construct : Construct} (detected : detect source = construct)
    (statement : construct ≠ .expression) :
    ∃ keyword, leadingKeyword? source = some keyword ∧ ofKeyword? keyword = some construct := by
  rcases Nat.lt_or_ge maxOffset source.utf8ByteSize with large | fits
  · rw [detect, TokenStream.ofSource, if_pos large] at detected
    exact absurd detected.symm statement
  rw [detect_eq fits] at detected
  cases introduced : (leadingKeyword? source).bind ofKeyword? with
  | none =>
    rw [introduced] at detected
    exact absurd detected.symm statement
  | some other =>
    rw [introduced] at detected
    obtain rfl : other = construct := detected
    exact Option.bind_eq_some_iff.mp introduced

/-- What a source is extracted as, it is detected as. -/
theorem detect_of_extract {construct : Construct} (embedded : construct ≠ .arguments)
    (extracted : construct.extract source = .ok span) : detect source = construct := by
  have dispatch (fits : source.utf8ByteSize ≤ maxOffset) {keyword : Keyword}
      (leads : leadingKeyword? source = some keyword) (introduces : ofKeyword? keyword = some construct) :
      detect source = construct := by
    rw [detect_eq fits, leads, Option.bind_some, introduces]
    rfl
  cases construct with
  | ifHeader | forHeader | switchHeader =>
    exact dispatch (Recognizer.recognize_eq_ok extracted).1
      (Header.leadingKeyword?_of_recognize extracted) rfl
  | label =>
    have fits := (Recognizer.recognize_eq_ok extracted).1
    rcases Label.leadingKeyword?_of_recognize extracted with leads | leads
    · exact dispatch fits leads rfl
    · exact dispatch fits leads rfl
  | expression =>
    rw [detect_eq (Recognizer.recognize_eq_ok extracted).1, Expression.ofKeyword?_of_recognize extracted]
    rfl
  | arguments => exact absurd rfl embedded

theorem asksForKeyword_of_detect {construct : Construct}
    (statement : construct ∈ [ifHeader, forHeader, switchHeader, label])
    (detected : detect source = construct) (failed : construct.extract source = .error fault) :
    fault.asksForKeyword = false := by
  have other : construct ≠ .expression := by
    rintro rfl
    exact absurd statement (by decide)
  obtain ⟨keyword, leads, introduces⟩ := leadingKeyword?_of_detect detected other
  cases construct with
  | ifHeader | forHeader | switchHeader =>
    cases keyword <;> cases introduces
    exact Header.asksForKeyword_of_recognize leads failed
  | label =>
    cases keyword <;> cases introduces
    · exact Label.asksForKeyword_of_recognize (.inl leads) failed
    · exact Label.asksForKeyword_of_recognize (.inr leads) failed
  | expression | arguments => exact absurd statement (by decide)

/-- A source has one reading at most. What is extracted from it as anything but
arguments is what is detected; so no two constructs are extracted; and what is
detected by a keyword does not fail for want of a keyword. -/
theorem one_reading (source : String) :
    (∀ construct span, construct ≠ arguments → construct.extract source = .ok span →
      detect source = construct) ∧
    (∀ left right span other, left ≠ arguments → right ≠ arguments →
      left.extract source = .ok span → right.extract source = .ok other → left = right) ∧
    ∀ construct fault, construct ∈ [ifHeader, forHeader, switchHeader, label] →
      detect source = construct → construct.extract source = .error fault →
      fault.asksForKeyword = false := by
  refine ⟨fun _ _ => detect_of_extract, ?_, fun _ _ => asksForKeyword_of_detect⟩
  intro left right span other first second extracted also
  exact (detect_of_extract first extracted).symm.trans (detect_of_extract second also)

/-- A label behind trivia, and a label that is cut off. -/
theorem one_reading_label : label.extract "/**/ case x:" = .ok ⟨5, 12⟩ ∧
    detect "/**/ case x:" = label ∧
    (∀ right other, right ≠ arguments → right.extract "/**/ case x:" = .ok other → label = right) ∧
    label.extract "case x" = .error (.expected .colon .endOfInput 6) ∧
    (Fault.expected .colon .endOfInput 6).asksForKeyword = false := by
  have extracted : label.extract "/**/ case x:" = .ok ⟨5, 12⟩ := by decide +kernel
  have detected : detect "case x" = label := by decide +kernel
  have failed : label.extract "case x" = .error (.expected .colon .endOfInput 6) := by decide +kernel
  have only : label ≠ arguments := by decide
  obtain ⟨decides, exclusive, -⟩ := one_reading "/**/ case x:"
  obtain ⟨-, -, present⟩ := one_reading "case x"
  exact ⟨extracted, decides _ _ only extracted,
    fun right other embedded also => exclusive _ _ _ _ only embedded extracted also, failed,
    present _ _ (by decide) detected failed⟩

end Construct

end FragmentBounds
