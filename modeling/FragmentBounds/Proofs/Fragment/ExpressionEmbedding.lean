import FragmentBounds.Proofs.Fragment.Respects
import FragmentBounds.Proofs.Fragment.Tracking
import FragmentBounds.Proofs.Lexeme.Splitting
import FragmentBounds.Proofs.Recognizer.Moved

/-! An expression taken out of its source is the same expression elsewhere:
behind blank text, before a closing brace or the end. -/
namespace FragmentBounds

namespace Expression

open Recognizer

theorem fragment_ne_none {last : State} {gap lastGap : Gap} {front : List Token}
    (reads : Reads recognizer .start gap front last lastGap) (complete : last.phase.isComplete) :
    ∃ span, last.fragment = some span := by
  -- As long as nothing is read an operand is due, so a complete expression covers something.
  have kept : last.fragment = none → last.phase = .operand := by
    refine reads.invariant (P := fun state => state.fragment = none → state.phase = .operand)
      (fun _ => rfl) ?_
    intro state gap token next _ _ stepped none
    rw [(step_more stepped).2.1] at none
    cases none
  cases fragment : last.fragment with
  | some span => exact ⟨span, rfl⟩
  | none =>
    rw [kept fragment] at complete
    cases complete

theorem reads_start_gap {token : Token} {pending : List Token} {last : State} {gap lastGap : Gap}
    (significant : token.isTrivia = false) (also : Gap)
    (reads : Reads recognizer .start gap (token :: pending) last lastGap) :
    Reads recognizer .start also (token :: pending) last lastGap := by
  cases reads with
  | trivia trivia _ => simp [significant] at trivia
  | step _ wellFormed stepped more =>
    have same : recognizer.step .start also token = recognizer.step .start gap token := by
      change step .start also token = step .start gap token
      unfold step
      rw [State.start, Phase.settle_operand, Phase.settle_operand]
    exact .step significant wellFormed (same.trans stepped) more

/-- Lexemes that are an expression from an offset on: one that may end after
them, or one that their spread mark ends. -/
inductive Whole (offset : Nat) (inside : List Lexeme) (span : Span) : Prop
  | stopped {last : State} {gap lastGap : Gap}
      (reads : Reads recognizer .start gap (tokensFrom offset inside) last lastGap)
      (topLevel : last.nesting.isTopLevel) (complete : last.phase.isComplete)
      (covers : last.fragment = some span)
  | spread {last : State} {gap lastGap : Gap} {body : List Lexeme} {mark : Lexeme}
      (parts : inside = body ++ [mark]) (nonempty : body ≠ []) (ellipsis : mark.tag = .ellipsis)
      (reads : Reads recognizer .start gap (tokensFrom offset body) last lastGap)
      (stepped : recognizer.step last lastGap
        (.ofLexeme (offset + Text.byteSize (body.flatMap Lexeme.text)) mark) = .ok (.done span))

theorem ends_of_settles {size : Nat} {last : State} {gap lastGap : Gap} {front back : List Token}
    {span : Span} (reads : Reads recognizer .start gap front last lastGap)
    (settles : Settles recognizer size last lastGap back (.ok span)) :
    last.nesting.isTopLevel ∧ ((last.phase.isComplete ∧ last.fragment = some span) ∨
      ∃ mark pending, back = mark :: pending ∧ mark.isTrivia = false ∧
        mark.tag.isMalformed = false ∧
        last.phase.settle last.previous lastGap mark = .ok .finish ∧
        extendFragment last.fragment mark = some span ∧
        recognizer.step last lastGap mark = .ok (.done span)) := by
  have covered (complete : last.phase.isComplete) (offset : Nat) :
      last.fragment = some (last.span offset) := by
    obtain ⟨inner, covers⟩ := fragment_ne_none reads complete
    rw [State.span, covers]
    rfl
  rcases settles_eq_ok settles with ⟨rfl, ended⟩ | ⟨token, pending, rfl, visible, sound, stepped⟩
  · obtain ⟨topLevel, complete, rfl⟩ := atEnd_ok ended
    exact ⟨topLevel, .inl ⟨complete, covered complete size⟩⟩
  · obtain ⟨topLevel, ⟨stopped, rfl⟩ | ⟨finished, covers⟩⟩ := step_done stepped
    · have complete := Phase.isComplete_of_stop stopped
      exact ⟨topLevel, .inl ⟨complete, covered complete _⟩⟩
    · exact ⟨topLevel, .inr ⟨token, pending, rfl, visible, sound, finished, covers, stepped⟩⟩

theorem whole_of_recognize {source : String} {span : Span}
    (recognized : recognizer.recognize source = .ok span) :
    ∃ before inside after, lexemes source.toList = before ++ inside ++ after ∧
      (∀ lexeme ∈ before, lexeme.tag.isTrivia) ∧ Trimmed inside ∧
      (∀ lexeme ∈ inside, lexeme.tag.isMalformed = false) ∧
      span = ⟨Text.byteSize (before.flatMap Lexeme.text),
        Text.byteSize (before.flatMap Lexeme.text) + Text.byteSize (inside.flatMap Lexeme.text)⟩ ∧
      Whole (Text.byteSize (before.flatMap Lexeme.text)) inside span := by
  obtain ⟨-, front, back, last, lastGap, cut, reads, settles⟩ := recognize_eq_ok recognized
  obtain ⟨read, behind, parts, rfl, rfl⟩ := tokensFrom_eq_append cut
  have full : ∀ lexeme ∈ read ++ behind, lexeme.text ≠ [] := by
    rw [← parts]
    exact fun lexeme => text_ne_nil_of_mem_lexemes
  have sound := tag_of_mem_lexemes (P := fun tag => tag.isMalformed = false) reads.wellFormed
  have fragment : last.fragment = hull none (tokensFrom 0 read) := fragment_eq_hull reads
  obtain ⟨topLevel, ends⟩ := ends_of_settles reads settles
  rcases trivia_or_trimmed read with all | ⟨before, inside, after, rfl, left, trimmed, right⟩
  · -- Trivia alone leaves the operand missing, and then the expression does not end.
    obtain rfl := reads.eq_of_trivia (isTrivia_tokensFrom all)
    rcases ends with ⟨complete, -⟩ | ⟨mark, _, -, -, -, finished, -, -⟩
    · cases complete
    · obtain ⟨next, same⟩ := Phase.advances_of_not_isComplete rfl finished
      cases same
  · rw [List.append_assoc] at reads
    obtain ⟨first, core⟩ := reads.after_trivia left
    rw [Nat.zero_add] at core
    rcases ends with ⟨complete, covers⟩ |
      ⟨token, pending, tail, significant, wellFormed, finished, covers, stepped⟩
    · obtain ⟨final, core⟩ := core.before_trivia right
      refine ⟨before, inside, after ++ behind, by simp [parts], left, trimmed, ?_, ?_, ?_⟩
      · exact fun lexeme member => sound lexeme (by simp [member])
      · rw [fragment, hull_tokensFrom 0 left trimmed (fun l m => full l (by simp [m])) right] at covers
        simpa using covers.symm
      · exact .stopped core topLevel complete covers
    -- A spread mark belongs to the expression, and so does the trivia in front of it.
    · obtain ⟨mark, more, rfl, rfl, -⟩ := tokensFrom_eq_cons tail
      have whole := trimmed.append_significant after mark significant
      refine ⟨before, inside ++ after ++ [mark], more, by simp [parts], left, whole, ?_, ?_, ?_⟩
      · intro lexeme member
        rcases List.mem_append.mp member with member | member
        · exact sound lexeme (by simpa [or_assoc] using .inr (List.mem_append.mp member))
        · obtain rfl := List.mem_singleton.mp member
          exact wellFormed
      · have behind : hull none (tokensFrom 0 (before ++ (inside ++ after ++ [mark]) ++ [])) =
            some span := by
          rw [List.append_nil, ← List.append_assoc, ← List.append_assoc, tokensFrom_append,
            hull_append, ← fragment, ← covers]
          exact hull_cons_significant _ _ significant
        rw [hull_tokensFrom 0 left whole (fun l m => full l ?_) (by simp)] at behind
        · simpa using behind.symm
        · simp only [List.mem_append, List.mem_cons] at m ⊢
          tauto
      · have place : 0 + Text.byteSize ((before ++ inside ++ after).flatMap Lexeme.text) =
            Text.byteSize (before.flatMap Lexeme.text) +
              Text.byteSize ((inside ++ after).flatMap Lexeme.text) := by
          simp
        rw [place] at stepped
        exact .spread rfl (by simp [trimmed.nonempty]) (Phase.tag_of_finish finished) core stepped

theorem reads_behind_trivia {before body : List Lexeme} {last : State} {gap lastGap : Gap}
    (left : ∀ lexeme ∈ before, lexeme.tag.isTrivia) (nonempty : body ≠ [])
    (first : ∀ lexeme ∈ body.head?, lexeme.tag.isTrivia = false)
    (reads : Reads recognizer .start gap
      (tokensFrom (Text.byteSize (before.flatMap Lexeme.text)) body) last lastGap) :
    Reads recognizer .start .closed (tokensFrom 0 (before ++ body)) last lastGap := by
  obtain ⟨lexeme, more, rfl⟩ := List.exists_cons_of_ne_nil nonempty
  have visible : (Token.ofLexeme (Text.byteSize (before.flatMap Lexeme.text)) lexeme).isTrivia = false :=
    first lexeme rfl
  obtain ⟨entered, skipped⟩ := reads_trivia recognizer .start .closed (@isTrivia_tokensFrom 0 _ left)
  rw [tokensFrom_append, Nat.zero_add]
  exact skipped.append (reads_start_gap visible entered reads)

theorem Whole.reads {before inside : List Lexeme} {span : Span}
    (left : ∀ lexeme ∈ before, lexeme.tag.isTrivia) (trimmed : Trimmed inside)
    (whole : Whole (Text.byteSize (before.flatMap Lexeme.text)) inside span) :
    (∃ last lastGap, Reads recognizer .start .closed (tokensFrom 0 (before ++ inside)) last lastGap ∧
        last.nesting.isTopLevel ∧ last.phase.isComplete ∧ last.fragment = some span) ∨
      ∃ body mark last lastGap, inside = body ++ [mark] ∧ mark.tag = .ellipsis ∧
        Reads recognizer .start .closed (tokensFrom 0 (before ++ body)) last lastGap ∧
        recognizer.step last lastGap
          (.ofLexeme (Text.byteSize ((before ++ body).flatMap Lexeme.text)) mark) =
            .ok (.done span) := by
  cases whole with
  | @stopped last _ lastGap reads topLevel complete covers =>
    have reads := reads_behind_trivia left trimmed.nonempty trimmed.first reads
    exact .inl ⟨last, lastGap, reads, topLevel, complete, covers⟩
  | @spread last _ lastGap body mark parts nonempty ellipsis reads stepped =>
    subst parts
    have first : ∀ lexeme ∈ body.head?, lexeme.tag.isTrivia = false := by
      intro lexeme member
      exact trimmed.first lexeme (by simp [List.head?_append_of_ne_nil _ nonempty, member])
    have reads := reads_behind_trivia left nonempty first reads
    have place : Text.byteSize (before.flatMap Lexeme.text) + Text.byteSize (body.flatMap Lexeme.text) =
        Text.byteSize ((before ++ body).flatMap Lexeme.text) := by simp
    rw [place] at stepped
    exact .inr ⟨body, mark, last, lastGap, rfl, ellipsis, reads, stepped⟩

theorem reads_moved {offset : Nat} {first : Lexeme} {more : List Lexeme} {last : State}
    {gap lastGap : Gap} (significant : first.tag.isTrivia = false)
    (reads : Reads recognizer .start gap (tokensFrom offset (first :: more)) last lastGap)
    (place : Nat) (also : Gap) :
    ∃ final, Reads recognizer .start also (tokensFrom place (first :: more)) final lastGap ∧
      last.Matches (.shift offset place) final := by
  have visible : (Token.ofLexeme offset first).isTrivia = false := significant
  have reads := reads_start_gap visible also reads
  exact respects.reads reads (aligned_shift offset place (first :: more)) ⟨rfl, .empty, .none, rfl⟩

/-- Tokens before which an expression ends. -/
inductive Ends : List Token → Prop
  | atEnd : Ends []
  | brace {token : Token} {more : List Token} (tag : token.tag = .closing .brace) :
      Ends (token :: more)
  | trivia {token : Token} {more : List Token} (trivia : token.isTrivia) (ends : Ends more) :
      Ends (token :: more)

theorem run_of_ends {size : Nat} {state : State} {gap : Gap} {tokens : List Token} {span : Span}
    (topLevel : state.nesting.isTopLevel) (complete : state.phase.isComplete)
    (covers : state.fragment = some span) (ends : Ends tokens) :
    recognizer.run size state gap tokens = .ok span := by
  induction ends generalizing gap with
  | atEnd =>
    change atEnd state size = .ok span
    have closed := (Nesting.ensureClosed_eq_ok state.nesting).mpr topLevel
    have stopped : state.phase.settle state.previous .closed (.endOfInput size) = .ok .stop :=
      Phase.stop_of_isComplete complete _ _ (.inr rfl)
    rw [atEnd, closed, State.span, covers]
    simp only [bind, Except.bind, stopped]
    rfl
  | @brace token _ tag =>
    have stopped := Phase.stop_of_isComplete complete state.previous gap (.inl tag)
    have stepped := step_of_stop topLevel covers stopped
    exact (Settles.of_tag tag rfl rfl stepped).run_eq
  | trivia trivia _ ih =>
    rw [run_trivia _ _ _ _ _ trivia]
    exact ih

private theorem eq_of_shift {offset place size : Nat} {span : Span}
    (moved : Span.Corresponds (.shift offset place) ⟨offset, offset + size⟩ span) :
    span = ⟨place, place + size⟩ := by
  obtain ⟨start, stop⟩ := moved.of_shift
  obtain ⟨_, _⟩ := span
  simp only [Span.mk.injEq] at start stop ⊢
  omega

theorem Whole.run_eq {offset place size : Nat} {inside : List Lexeme} {gap : Gap}
    {back : List Token} (trimmed : Trimmed inside)
    (whole : Whole offset inside
      ⟨offset, offset + Text.byteSize (inside.flatMap Lexeme.text)⟩) (ends : Ends back) :
    recognizer.run size .start gap (tokensFrom place inside ++ back) =
      .ok ⟨place, place + Text.byteSize (inside.flatMap Lexeme.text)⟩ := by
  cases whole with
  | stopped reads topLevel complete covers =>
    obtain ⟨first, more, rfl, significant⟩ := trimmed.exists_cons
    obtain ⟨final, reads, same⟩ := reads_moved significant reads place gap
    rw [reads.run_append size back]
    have fragment := same.fragment
    rw [covers] at fragment
    obtain ⟨span, covered, moved⟩ : ∃ span, final.fragment = some span ∧
        Span.Matches (.shift offset place)
          ⟨offset, offset + Text.byteSize ((first :: more).flatMap Lexeme.text)⟩ span := by
      cases covered : final.fragment with
      | none =>
        rw [covered] at fragment
        cases fragment
      | some span =>
        rw [covered] at fragment
        cases fragment with
        | some moved => exact ⟨span, rfl, moved⟩
    have here := eq_of_shift (.covers moved)
    rw [here] at covered
    have topLevel := same.nesting.isTopLevel_eq.trans topLevel
    have complete : final.phase.isComplete := by rw [same.phase]; exact complete
    exact run_of_ends topLevel complete covered ends
  | @spread last _ lastGap body mark parts nonempty ellipsis reads stepped =>
    subst parts
    obtain ⟨first, more, rfl⟩ := List.exists_cons_of_ne_nil nonempty
    have visible := trimmed.first first rfl
    obtain ⟨final, reads, same⟩ := reads_moved visible reads place gap
    have aligned := aligned_ofLexeme offset place (Text.byteSize ((first :: more).flatMap Lexeme.text)) mark
    have agreed := respects.step_aligned lastGap same aligned
    rw [stepped] at agreed
    obtain ⟨outcome, taken, related⟩ := agreed.exists_ok
    cases related with
    | done moved =>
      rw [eq_of_shift moved] at taken
      rw [tokensFrom_append, List.append_assoc, reads.run_append size]
      exact (Settles.of_tag ellipsis rfl rfl taken).run_eq

theorem ends_append {front back : List Token} (trivia : ∀ token ∈ front, token.isTrivia)
    (ends : Ends back) : Ends (front ++ back) := by
  induction front with
  | nil => exact ends
  | cons token front ih =>
    have more := ih fun other member => trivia other (List.mem_cons_of_mem _ member)
    exact .trivia (trivia token (by simp)) more

/-- A whole expression is recognised in any source that it is put into. -/
theorem Whole.recognize_eq {offset : Nat} {source : String} {before inside behind : List Lexeme}
    (whole : Whole offset inside
      ⟨offset, offset + Text.byteSize (inside.flatMap Lexeme.text)⟩)
    (trimmed : Trimmed inside) (fits : source.utf8ByteSize ≤ maxOffset)
    (cut : lexemes source.toList = before ++ (inside ++ behind))
    (trivia : ∀ lexeme ∈ before, lexeme.tag.isTrivia)
    (ends : ∀ place, Ends (tokensFrom place behind)) :
    recognizer.recognize source = .ok ⟨Text.byteSize (before.flatMap Lexeme.text),
      Text.byteSize (before.flatMap Lexeme.text) + Text.byteSize (inside.flatMap Lexeme.text)⟩ := by
  rw [recognize_of_fits recognizer fits, tokens, cut, tokensFrom_append, tokensFrom_append,
    Nat.zero_add]
  obtain ⟨gap, skipped⟩ := reads_trivia recognizer .start .closed (@isTrivia_tokensFrom 0 _ trivia)
  have reached := skipped.run_append source.utf8ByteSize
  rw [recognizer] at reached ⊢
  rw [reached]
  exact whole.run_eq trimmed (ends _)

end Expression

/-- An expression is recognised again wherever its text stands: behind any
blank text, and before blank text with the end of the source or a closing brace
behind it. What follows the brace may be anything. -/
theorem extract_expression_embedded {source : String} {span : Span}
    (extracted : Construct.expression.extract source = .ok span) :
    ∃ text, span.get? source = some text ∧
      ∀ before after : String, Blank before.toList → Blank after.toList →
        (∀ rest : String, (before ++ text ++ after ++ "\x7d" ++ rest).utf8ByteSize ≤ maxOffset →
          Construct.expression.extract (before ++ text ++ after ++ "\x7d" ++ rest) =
            .ok ⟨before.utf8ByteSize, before.utf8ByteSize + text.utf8ByteSize⟩) ∧
        ((before ++ text ++ after).utf8ByteSize ≤ maxOffset →
          Construct.expression.extract (before ++ text ++ after) =
            .ok ⟨before.utf8ByteSize, before.utf8ByteSize + text.utf8ByteSize⟩) := by
  obtain ⟨leading, inside, behind, cut, -, trimmed, sound, rfl, whole⟩ :=
    Expression.whole_of_recognize extracted
  obtain ⟨text, covered, rfl, size⟩ := get?_of_parts cut
  refine ⟨text, covered, fun before after blank spaces => ?_⟩
  have place : Text.byteSize ((lexemes before.toList).flatMap Lexeme.text) = before.utf8ByteSize := by
    rw [flatMap_text_lexemes, Text.byteSize_toList]
  have left := isTrivia_of_mem_lexemes_blank blank
  have right (start : Nat) := @isTrivia_tokensFrom start _ (isTrivia_of_mem_lexemes_blank spaces)
  constructor
  · intro rest fits
    have brace : lexemes ('\x7d' :: rest.toList) =
        ⟨.closing .brace, ['\x7d']⟩ :: lexemes rest.toList := lexemes_closer .brace rest.toList
    have separated : Lexeme.Next (fun c => Lexeme.separates c) ('\x7d' :: rest.toList) := by
      rw [Lexeme.next_cons]
      rfl
    have split := lexemes_embedded blank trimmed sound spaces separated
      (by rw [brace]; simp [Tag.isTrivia])
    have cut : (before ++ text ++ after ++ "\x7d" ++ rest).toList =
        before.toList ++ text.toList ++ after.toList ++ '\x7d' :: rest.toList := by simp
    rw [← cut, brace] at split
    have found := whole.recognize_eq trimmed fits split left fun start => by
      rw [tokensFrom_append]
      exact Expression.ends_append (right start) (.brace rfl)
    rwa [place, ← size] at found
  · intro fits
    have separated : Lexeme.Next (fun c => Lexeme.separates c) [] := Lexeme.next_nil _
    have split := lexemes_embedded blank trimmed sound spaces separated (by simp [lexemes_nil])
    rw [← String.toList_append, ← String.toList_append, List.append_nil, lexemes_nil,
      List.append_nil] at split
    have found := whole.recognize_eq trimmed fits split left fun start => by
      have ends := Expression.ends_append (right start) .atEnd
      rwa [List.append_nil] at ends
    rwa [place, ← size] at found

theorem extract_expression_embedded_call :
    Construct.expression.extract "  a.f(x)...  y" = .ok ⟨2, 11⟩ ∧
      Construct.expression.extract ("\n" ++ "a.f(x)..." ++ "\t" ++ "\x7d" ++ "'") = .ok ⟨1, 10⟩ ∧
        Construct.expression.extract ("" ++ "a.f(x)..." ++ " ") = .ok ⟨0, 9⟩ := by
  have extracted : Construct.expression.extract "  a.f(x)...  y" = .ok ⟨2, 11⟩ := by decide +kernel
  obtain ⟨text, covers, embedded⟩ := extract_expression_embedded extracted
  have same : Span.get? ⟨2, 11⟩ "  a.f(x)...  y" = some "a.f(x)..." := by decide +kernel
  obtain rfl := Option.some.inj (covers.symm.trans same)
  refine ⟨extracted, ?_, ?_⟩
  · have braced := (embedded "\n" "\t" (by decide +kernel) (by decide +kernel)).1 "'"
    exact braced (by decide +kernel)
  · have ended := (embedded "" " " (by decide +kernel) (by decide +kernel)).2
    exact ended (by decide +kernel)

end FragmentBounds
