import FragmentBounds.Proofs.Bracket.Tracked

/-! What a machine has read and where it finds fault, if it keeps the open
brackets in a nesting. -/
namespace FragmentBounds.Recognizer

variable {σ α : Type} {machine : Recognizer σ α} {nesting : σ → Nesting}

/-- Tokens that the machine goes on from change its nesting as they should. A
token is at fault where it starts, and the end of the source is at fault there
or at a bracket that is still open. -/
structure Tracks (machine : Recognizer σ α) (nesting : σ → Nesting) : Prop where
  start : nesting machine.start = .empty
  more : ∀ {state gap token next}, machine.step state gap token = .ok (.more next) →
    (nesting state).track token = .ok (nesting next)
  fault : ∀ {state gap token fault}, machine.step state gap token = .error fault →
    fault.offset = token.span.start
  atEnd : ∀ {state size fault}, machine.atEnd state size = .error fault →
    fault.offset = size ∨ ∃ opener ∈ (nesting state).openers, fault.offset = opener.offset

theorem Tracks.tracked (tracks : machine.Tracks nesting) {state last : σ} {gap lastGap : Gap}
    {front : List Token} (reads : Reads machine state gap front last lastGap) :
    Tracked (nesting state) front (nesting last) := by
  induction reads with
  | nil state => exact .nil (nesting state)
  | @trivia state _ _ _ token _ trivia _ ih =>
    exact .cons ((nesting state).track_plain (Tag.isBracket_of_isTrivia trivia)) ih
  | step _ _ stepped _ ih => exact .cons (tracks.more stepped) ih

theorem Tracks.openers (tracks : machine.Tracks nesting) {gap lastGap : Gap} {front : List Token}
    {last : σ} (reads : Reads machine machine.start gap front last lastGap) {opener : Opener}
    (member : opener ∈ (nesting last).openers) :
    ∃ token ∈ front, token.span.start = opener.offset := by
  have opened : ∀ opener ∈ (nesting last).openers,
      ∃ token ∈ front, token.span.start = opener.offset := by
    apply reads.invariant (P := fun state => ∀ opener ∈ (nesting state).openers,
      ∃ token ∈ front, token.span.start = opener.offset)
    · rw [tracks.start]
      simp [Nesting.empty]
    · intro state gap token next inside opened stepped opener member
      rcases Nesting.mem_openers_of_track (tracks.more stepped) member with before | here
      · exact opened opener before
      · exact ⟨token, inside, here.symm⟩
  exact opened opener member

theorem Tracks.offset_of_settles (tracks : machine.Tracks nesting) {source : String}
    {gap lastGap : Gap} {front back : List Token} {last : σ} {fault : Fault}
    (cut : tokens source = front ++ back)
    (reads : Reads machine machine.start gap front last lastGap)
    (settles : Settles machine source.utf8ByteSize last lastGap back (.error fault)) :
    IsTokenBoundary source fault.offset := by
  have here (token : Token) (member : token ∈ front ++ back) :
      IsTokenBoundary source token.span.start := isTokenBoundary_start (by rw [cut]; exact member)
  generalize same : Except.error fault = outcome at settles
  cases settles with
  | atEnd =>
    rcases tracks.atEnd same.symm with ended | ⟨opener, member, opened⟩
    · exact .inl ended
    · obtain ⟨token, inside, start⟩ := tracks.openers reads member
      rw [opened, ← start]
      exact here token (List.mem_append_left _ inside)
  | @malformed token =>
    cases same
    exact here token (by simp)
  | @fault token _ _ _ _ stepped =>
    cases same
    rw [tracks.fault stepped]
    exact here token (by simp)
  | done => cases same

private theorem isTokenBoundary_zero (source : String) : IsTokenBoundary source 0 := by
  have laid := laid_tokens source
  cases same : tokens source with
  | nil =>
    rw [same] at laid
    exact .inl ((Laid.nil 0).stop_unique laid)
  | cons token pending =>
    rw [same] at laid
    exact .inr ⟨token, by simp [same], laid.start_eq.symm⟩

theorem Tracks.offset_of_error (tracks : machine.Tracks nesting) {source : String} {fault : Fault}
    (failed : machine.recognize source = .error fault) : IsTokenBoundary source fault.offset := by
  rcases Nat.lt_or_ge maxOffset source.utf8ByteSize with large | fits
  · rw [recognize, TokenStream.ofSource, if_pos large] at failed
    cases failed
    exact isTokenBoundary_zero source
  · rw [recognize_of_fits machine fits] at failed
    obtain ⟨front, back, last, lastGap, cut, reads, settles⟩ :=
      reads_settles machine source.utf8ByteSize machine.start .closed (tokens source)
    rw [failed] at settles
    exact tracks.offset_of_settles cut reads settles

end FragmentBounds.Recognizer
