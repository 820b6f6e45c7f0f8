import FragmentBounds.Proofs.Grammar.Arguments

/-! Where a header holds a type switch guard. Four significant tokens in a row
are one if the point is outside brackets and nothing is wrong up to the last of
them; the search finds the first, and otherwise the first fault of the header. -/
namespace FragmentBounds

/-- A point outside brackets and `(type)`, with nothing wrong before their end. -/
structure GuardBehind (before : List Token) (point paren word closer : Token) : Prop where
  dot : point.tag = .dot
  opening : paren.tag = .opening .paren
  spelled : word.keyword? = some .kwType
  closing : closer.tag = .closing .paren
  outside : Balanced (before.map Token.tag)
  faultless : Faultless (before ++ [point, paren, word, closer])

/-- Some four tokens in a row are a guard. -/
def HoldsGuard (tokens : List Token) : Prop := ∃ before point paren word closer rest,
  tokens = before ++ ([point, paren, word, closer] ++ rest) ∧
    GuardBehind before point paren word closer

/-- What the search comes to among tokens: a guard, the end of well-formed tokens
without one, or the first fault, if there is no guard before it. -/
inductive GuardVerdict (tokens : List Token) : Except Fault Bool → Prop
  | guard (holds : HoldsGuard tokens) : GuardVerdict tokens (.ok true)
  | none (guardless : ¬ HoldsGuard tokens) (wellFormed : WellFormedList tokens) :
      GuardVerdict tokens (.ok false)
  | fault {fault : Fault} (guardless : ¬ HoldsGuard tokens) (first : ListFault tokens [] fault) :
      GuardVerdict tokens (.error fault)

theorem HoldsGuard.append {front : List Token} (holds : HoldsGuard front) (back : List Token) :
    HoldsGuard (front ++ back) := by
  obtain ⟨before, point, paren, word, closer, rest, rfl, guarded⟩ := holds
  exact ⟨before, point, paren, word, closer, rest ++ back, by simp, guarded⟩

theorem Faultless.of_append {front back : List Token} (faultless : Faultless (front ++ back)) :
    Faultless front := by
  obtain ⟨last, tracked⟩ := closable_iff_tracked.mp faultless.closable
  obtain ⟨middle, before, -⟩ := tracked.split
  exact ⟨fun token member => faultless.wellFormed token (List.mem_append_left _ member),
    closable_iff_tracked.mpr ⟨middle, before⟩⟩

namespace TypeSwitch

open Recognizer

/-- How far the last tokens go towards a guard. -/
inductive Reaches : Progress → List Token → Prop
  | nothing (tokens : List Token) : Reaches .nothing tokens
  | point {before : List Token} {point : Token} (tag : point.tag = .dot)
      (outside : Balanced (before.map Token.tag)) : Reaches .point (before ++ [point])
  | paren {front : List Token} {paren : Token} (begun : Reaches .point front)
      (tag : paren.tag = .opening .paren) : Reaches .paren (front ++ [paren])
  | keyword {front : List Token} {word : Token} (begun : Reaches .paren front)
      (spelled : word.keyword? = some .kwType) : Reaches .keyword (front ++ [word])

variable {state last : State} {gap lastGap : Gap} {seen front back : List Token} {token : Token}

theorem blind : recognizer.Blind := fun _ _ _ _ => rfl

theorem Reaches.next (reaches : Reaches state.progress seen)
    (tracked : Tracked .empty seen state.nesting) :
    Reaches (state.progress.next state.nesting.isTopLevel token) (seen ++ [token]) := by
  unfold Progress.next
  split
  · next found => exact .point found.1 (tracked.balanced rfl found.2)
  · split
    · next found =>
      rw [found.1] at reaches
      exact .paren reaches found.2
    · split
      · next found =>
        rw [found.1] at reaches
        exact .keyword reaches found.2
      · exact .nothing _

theorem Reaches.reads (reads : Reads recognizer state gap front last lastGap)
    (visible : ∀ token ∈ front, token.isTrivia = false) (reaches : Reaches state.progress seen)
    (tracked : Tracked .empty seen state.nesting) : Reaches last.progress (seen ++ front) := by
  induction reads generalizing seen with
  | nil => simpa using reaches
  | trivia trivia _ _ => simp [visible _ List.mem_cons_self] at trivia
  | @step state next _ _ _ token pending _ _ stepped _ ih =>
    obtain ⟨opened, advanced⟩ := step_more stepped
    have here : Reaches next.progress (seen ++ [token]) := by
      rw [advanced]
      exact reaches.next tracked
    have behind := ih (fun other member => visible other (List.mem_cons_of_mem _ member)) here
      (tracked.append (.cons opened (.nil _)))
    simpa using behind

theorem holdsGuard_of_done {found : Bool}
    (reads : Reads recognizer recognizer.start .closed front last gap)
    (visible : ∀ token ∈ front, token.isTrivia = false) (wellFormed : token.tag.isMalformed = false)
    (stepped : recognizer.step last gap token = .ok (.done found)) :
    found = true ∧ HoldsGuard (front ++ token :: back) := by
  obtain ⟨⟨next, closed⟩, spelled, closing, rfl⟩ := step_done_iff.mp stepped
  have tracked : Tracked .empty front last.nesting := tracks.tracked reads
  have whole : Tracked .empty (front ++ [token]) next := tracked.append (.cons closed (.nil next))
  have faultless : Faultless (front ++ [token]) := by
    refine ⟨fun other member => ?_, whole.leavesOpen.closable⟩
    rcases List.mem_append.mp member with member | here
    · exact reads.wellFormed other member
    · rwa [List.mem_singleton.mp here]
  have reaches : Reaches last.progress ([] ++ front) := .reads reads visible (.nothing []) (.nil _)
  rw [spelled, List.nil_append] at reaches
  cases reaches with
  | @keyword _ word begun type =>
    cases begun with
    | @paren _ paren begun opening =>
      cases begun with
      | @point before point dot outside =>
        have guarded : GuardBehind before point paren word token :=
          ⟨dot, opening, type, closing, outside, by simpa using faultless⟩
        exact ⟨rfl, before, point, paren, word, token, back, by simp, guarded⟩

theorem not_reads_guard {before : List Token} {point paren word closer : Token}
    (guarded : GuardBehind before point paren word closer)
    (reads : Reads recognizer recognizer.start gap (before ++ [point, paren, word, closer]) last
      lastGap) : False := by
  obtain ⟨reached, reachedGap, seen, ahead⟩ := reads.split
  have outside : reached.nesting = .empty :=
    Tracked.unique (tracks.tracked seen) (guarded.outside.tracked .empty)
  have type := Token.tag_of_keyword? guarded.spelled
  obtain ⟨first, -, stepped, ahead⟩ := ahead.of_significant (Token.isTrivia_of_tag guarded.dot rfl)
  have begun : first.progress = .point := by
    rw [(step_more stepped).2, Progress.next, if_pos ⟨guarded.dot, by rw [outside]; rfl⟩]
  obtain ⟨second, -, stepped, ahead⟩ := ahead.of_significant (Token.isTrivia_of_tag guarded.opening rfl)
  have opened : second.progress = .paren := by
    rw [(step_more stepped).2, Progress.next, if_neg (by simp [guarded.opening]),
      if_pos ⟨begun, guarded.opening⟩]
  obtain ⟨third, -, stepped, ahead⟩ := ahead.of_significant (Token.isTrivia_of_tag type rfl)
  have spelled : third.progress = .keyword := by
    rw [(step_more stepped).2, Progress.next, if_neg (by simp [type]), if_neg (by simp [type]),
      if_pos ⟨opened, guarded.spelled⟩]
  obtain ⟨fourth, -, stepped, -⟩ := ahead.of_significant (Token.isTrivia_of_tag guarded.closing rfl)
  have done : recognizer.step third .closed closer = .ok (.done true) :=
    step_done_iff.mpr ⟨⟨_, (step_more stepped).1⟩, spelled, guarded.closing, rfl⟩
  cases stepped.symm.trans done

theorem guardless_of_reads (reads : Reads recognizer recognizer.start .closed front last gap) :
    ¬ HoldsGuard front := by
  rintro ⟨before, point, paren, word, closer, rest, rfl, guarded⟩
  rw [← List.append_assoc] at reads
  obtain ⟨_, _, here, -⟩ := reads.split
  exact not_reads_guard guarded here

theorem guardless_of_fault (reads : Reads recognizer recognizer.start .closed front last gap)
    (faulty : ¬ Faultless (front ++ [token])) : ¬ HoldsGuard (front ++ token :: back) := by
  rintro ⟨before, point, paren, word, closer, rest, cut, guarded⟩
  rw [← List.append_assoc, ← List.singleton_append, ← List.append_assoc] at cut
  rcases List.append_eq_append_iff.mp cut with ⟨more, longer, -⟩ | ⟨more, longer, -⟩
  · exact faulty (Faultless.of_append (longer ▸ guarded.faultless))
  · rcases List.eq_nil_or_concat more with rfl | ⟨more, last, rfl⟩
    · rw [longer, List.append_nil] at faulty
      exact faulty guarded.faultless
    · rw [List.concat_eq_append, ← List.append_assoc] at longer
      obtain ⟨rfl, -⟩ := List.append_inj' longer rfl
      exact guardless_of_reads reads ⟨before, point, paren, word, closer, more, by simp, guarded⟩

theorem not_faultless_of_malformed {kind : Malformation} (tag : token.tag = .malformed kind) :
    ¬ Faultless (front ++ [token]) := by
  intro faultless
  have sound := faultless.wellFormed token (by simp)
  simp [tag, Tag.isMalformed] at sound

theorem reads_of_faultless (visible : ∀ token ∈ front, token.isTrivia = false)
    (faultless : Faultless front) (guardless : ¬ HoldsGuard front) :
    ∃ last gap, Reads recognizer recognizer.start .closed front last gap := by
  obtain ⟨read, back, last, gap, rfl, reads, settles⟩ :=
    reads_settles recognizer 0 recognizer.start .closed front
  have next {token : Token} {pending : List Token}
      (faultless : Faultless (read ++ token :: pending)) : Faultless (read ++ [token]) := by
    rw [← List.singleton_append, ← List.append_assoc] at faultless
    exact faultless.of_append
  generalize recognizer.run 0 recognizer.start .closed (read ++ back) = outcome at settles
  cases settles with
  | atEnd => exact ⟨last, gap, by simpa using reads⟩
  | malformed tag => exact absurd (next faultless) (not_faultless_of_malformed tag)
  | fault _ _ stepped =>
    have tracked : Tracked .empty read last.nesting := tracks.tracked reads
    exact absurd (next faultless).closable (tracked.not_closable (track_of_step_error stepped))
  | done _ wellFormed stepped =>
    have seen : ∀ token ∈ read, token.isTrivia = false := fun token member =>
      visible token (List.mem_append_left _ member)
    exact absurd (holdsGuard_of_done reads seen wellFormed stepped).2 guardless

variable {tokens : List Token}

theorem verdict_of_run (visible : ∀ token ∈ tokens, token.isTrivia = false) (size : Nat) :
    GuardVerdict tokens (recognizer.run size recognizer.start .closed tokens) := by
  obtain ⟨front, back, last, gap, rfl, reads, settles⟩ :=
    reads_settles recognizer size recognizer.start .closed tokens
  have tracked : Tracked .empty front last.nesting := tracks.tracked reads
  have faultless : Faultless front := ⟨reads.wellFormed, tracked.leavesOpen.closable⟩
  generalize recognizer.run size recognizer.start .closed (front ++ back) = outcome at settles
  cases settles with
  | atEnd =>
    rw [List.append_nil]
    have guardless := guardless_of_reads reads
    cases ended : recognizer.atEnd last size with
    | ok found =>
      obtain ⟨topLevel, rfl⟩ := atEnd_ok ended
      exact .none guardless ⟨reads.wellFormed, tracked.balanced rfl topLevel⟩
    | error fault =>
      obtain ⟨opener, openers, inside, rfl⟩ :=
        Nesting.ensureClosed_eq_error.mp (ensureClosed_of_atEnd_error ended)
      have leaves := tracked.leavesOpen
      rw [inside] at leaves
      exact .fault guardless (.unclosed rfl faultless leaves.innermostOpen)
  | malformed tag =>
    exact .fault (guardless_of_fault reads (not_faultless_of_malformed tag))
      (.malformed rfl faultless tag)
  | fault _ _ stepped =>
    have failed := track_of_step_error stepped
    exact .fault (guardless_of_fault reads fun behind => tracked.not_closable failed behind.closable)
      (.of_track rfl faultless tracked failed)
  | done _ wellFormed stepped =>
    have seen : ∀ token ∈ front, token.isTrivia = false := fun token member =>
      visible token (List.mem_append_left _ member)
    obtain ⟨rfl, holds⟩ := holdsGuard_of_done reads seen wellFormed stepped
    exact .guard holds

theorem run_of_fault (visible : ∀ token ∈ tokens, token.isTrivia = false) (size : Nat)
    {fault : Fault} (guardless : ¬ HoldsGuard tokens) (first : ListFault tokens [] fault) :
    recognizer.run size recognizer.start .closed tokens = .error fault := by
  have reached {front back : List Token} (cut : tokens = front ++ back)
      (faultless : Faultless front) : ∃ last gap,
        Reads recognizer recognizer.start .closed front last gap ∧
          recognizer.run size recognizer.start .closed tokens = recognizer.run size last gap back := by
    subst cut
    have seen : ∀ token ∈ front, token.isTrivia = false := fun token member =>
      visible token (List.mem_append_left _ member)
    obtain ⟨last, gap, reads⟩ := reads_of_faultless seen faultless fun holds =>
      guardless (holds.append back)
    exact ⟨last, gap, reads, reads.run_append size back⟩
  have refused {front back : List Token} {token : Token} {bracket : Bracket} {fault : Fault}
      (cut : tokens = front ++ token :: back) (faultless : Faultless front)
      (tag : token.tag = .closing bracket)
      (failed : ∀ last, Tracked .empty front last →
        last.close bracket token.span.start = .error fault) :
      recognizer.run size recognizer.start .closed tokens = .error fault := by
    obtain ⟨last, gap, reads, same⟩ := reached cut faultless
    have closes := failed last.nesting (tracks.tracked reads)
    have stepped := step_of_track_error gap (Nesting.track_eq_error.mpr ⟨bracket, tag, closes⟩)
    have settles : Settles recognizer size last gap (token :: back) (.error fault) :=
      .fault (Token.isTrivia_of_tag tag rfl) (by rw [tag]; rfl) stepped
    rw [same, settles.run_eq]
  cases first with
  | malformed cut faultless tag =>
    obtain ⟨last, gap, -, same⟩ := reached cut faultless
    rw [same, run_malformed recognizer size last gap _ tag]
  | unmatched cut faultless tag balanced =>
    refine refused cut faultless tag fun last tracked => ?_
    obtain rfl := tracked.unique (balanced.tracked .empty)
    exact Nesting.close_eq_error.mpr (.inl ⟨rfl, rfl⟩)
  | mismatched cut faultless tag innermost other =>
    refine refused cut faultless tag fun last tracked => ?_
    obtain ⟨openers, inside⟩ := innermost.openers tracked
    exact Nesting.close_eq_error.mpr (.inr ⟨_, openers, inside, other, rfl⟩)
  | @unclosed opener _ faultless innermost =>
    obtain ⟨last, gap, reads, same⟩ := reached (List.append_nil tokens).symm faultless
    obtain ⟨openers, inside⟩ := innermost.openers (tracks.tracked reads)
    have unclosed := Nesting.ensureClosed_eq_error.mpr ⟨opener, openers, inside, rfl⟩
    rw [same]
    exact bind_eq_error.mpr (.inl unclosed)

/-- There is one thing to say of tokens, and the search comes to it. -/
theorem run_eq_iff (visible : ∀ token ∈ tokens, token.isTrivia = false) (size : Nat)
    {outcome : Except Fault Bool} :
    recognizer.run size recognizer.start .closed tokens = outcome ↔ GuardVerdict tokens outcome := by
  have verdict := verdict_of_run visible size
  refine ⟨fun same => same ▸ verdict, fun other => ?_⟩
  cases other with
  | fault guardless first => exact run_of_fault visible size guardless first
  | guard holds =>
    generalize recognizer.run size recognizer.start .closed tokens = found at verdict
    cases verdict with
    | guard => rfl
    | none guardless | fault guardless => exact absurd holds guardless
  | none guardless wellFormed =>
    generalize recognizer.run size recognizer.start .closed tokens = found at verdict
    cases verdict with
    | guard holds => exact absurd holds guardless
    | none => rfl
    | fault _ first => exact absurd wellFormed first.not_wellFormed

end TypeSwitch

/-- A header is a type switch if and only if its tokens hold a guard, with
nothing wrong up to its end, and is none if and only if they hold no guard and
are well formed. Otherwise it is too large, or the first fault of its tokens is
found. -/
theorem isTypeSwitchGuard_spec (header : String) :
    (TypeSwitch.isTypeSwitchGuard header = .ok true ↔
      header.utf8ByteSize ≤ maxOffset ∧ HoldsGuard (significantTokens header)) ∧
    (TypeSwitch.isTypeSwitchGuard header = .ok false ↔
      header.utf8ByteSize ≤ maxOffset ∧ ¬ HoldsGuard (significantTokens header) ∧
        WellFormedList (significantTokens header)) ∧
    ∀ fault, TypeSwitch.isTypeSwitchGuard header = .error fault ↔
      (maxOffset < header.utf8ByteSize ∧ fault = .sourceTooLarge header.utf8ByteSize) ∨
        (header.utf8ByteSize ≤ maxOffset ∧ ¬ HoldsGuard (significantTokens header) ∧
          ListFault (significantTokens header) [] fault) := by
  rcases Nat.lt_or_ge maxOffset header.utf8ByteSize with large | fits
  · have refused : TypeSwitch.isTypeSwitchGuard header =
        .error (.sourceTooLarge header.utf8ByteSize) := by
      rw [TypeSwitch.isTypeSwitchGuard, Recognizer.recognize, TokenStream.ofSource, if_pos large]
      rfl
    simp [refused, large, Nat.not_le.mpr large, eq_comm]
  · have verdict {outcome : Except Fault Bool} : TypeSwitch.isTypeSwitchGuard header = outcome ↔
        GuardVerdict (significantTokens header) outcome := by
      rw [TypeSwitch.isTypeSwitchGuard, TypeSwitch.blind.recognize_eq_run fits]
      exact TypeSwitch.run_eq_iff visible_significantTokens header.utf8ByteSize
    refine ⟨verdict.trans ⟨?_, ?_⟩, verdict.trans ⟨?_, ?_⟩, fun fault => verdict.trans ⟨?_, ?_⟩⟩
    · rintro ⟨holds⟩
      exact ⟨fits, holds⟩
    · rintro ⟨-, holds⟩
      exact .guard holds
    · intro none
      cases none with
      | none guardless wellFormed => exact ⟨fits, guardless, wellFormed⟩
    · rintro ⟨-, guardless, wellFormed⟩
      exact .none guardless wellFormed
    · intro faulty
      cases faulty with
      | fault guardless first => exact .inr ⟨fits, guardless, first⟩
    · rintro (⟨large, -⟩ | ⟨-, guardless, first⟩)
      · exact absurd fits (Nat.not_le.mpr large)
      · exact .fault guardless first

end FragmentBounds
