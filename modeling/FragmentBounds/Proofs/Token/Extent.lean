import FragmentBounds.Proofs.Token.Hull

/-! The significant tokens of a source, and spans that run from the start of one
to the end of one. -/
namespace FragmentBounds

def significantTokens (source : String) : List Token :=
  (tokens source).filter fun token => !token.isTrivia

/-- Where the significant token with an index starts. The end of the source
counts as one. -/
def significantStart (source : String) (index : Nat) : Nat :=
  ((significantTokens source)[index]?.map fun token => token.span.start).getD source.utf8ByteSize

/-- The span starts with the significant token that has the index, and cuts no
token. -/
structure Extent (source : String) (index : Nat) (span : Span) : Prop where
  start : span.start = significantStart source index
  forward : span.start ≤ span.stop
  starts : IsTokenBoundary source span.start
  stops : IsTokenBoundary source span.stop

/-- A place before the next significant token, or at the end of the source. -/
inductive Upcoming (source : String) : List Token → Nat → Prop
  | atEnd : Upcoming source [] source.utf8ByteSize
  | token {token : Token} {pending : List Token} (significant : token.isTrivia = false) :
      Upcoming source (token :: pending) token.span.start

def nextSignificant? (source : String) (offset : Nat) : Option Token :=
  (significantTokens source).find? fun token => offset ≤ token.span.start

/-- The significant tokens that lie in a span. -/
def coveredTokens (source : String) (span : Span) : List Token :=
  (significantTokens source).filter fun token =>
    decide (span.start ≤ token.span.start) && decide (token.span.stop ≤ span.stop)

theorem filter_trivia {tokens : List Token} (trivia : ∀ token ∈ tokens, token.isTrivia) :
    tokens.filter (fun token => !token.isTrivia) = [] := by
  simpa using trivia

section Next

variable {source : String} {front after : List Lexeme}
  (cut : lexemes source.toList = front ++ after)
include cut

theorem nextSignificant?_of_cut :
    nextSignificant? source (Text.byteSize (front.flatMap Lexeme.text)) =
      ((tokensFrom (Text.byteSize (front.flatMap Lexeme.text)) after).filter
        fun token => !token.isTrivia).head? := by
  have full : ∀ lexeme ∈ front ++ after, lexeme.text ≠ [] := by
    rw [← cut]
    exact fun lexeme => text_ne_nil_of_mem_lexemes
  have before := laid_tokensFrom 0 fun lexeme member => full lexeme (List.mem_append_left after member)
  have behind := laid_tokensFrom (Text.byteSize (front.flatMap Lexeme.text)) fun lexeme member =>
    full lexeme (List.mem_append_right front member)
  have skipped : ((tokensFrom 0 front).filter fun token => !token.isTrivia).find?
      (fun token => Text.byteSize (front.flatMap Lexeme.text) ≤ token.span.start) = none := by
    refine List.find?_eq_none.mpr fun token member => ?_
    have bounds := before.bounds (List.mem_filter.mp member).1
    simp only [decide_eq_true_eq]
    omega
  rw [nextSignificant?, significantTokens, tokens, cut, tokensFrom_append, List.filter_append,
    List.find?_append, skipped, Option.none_or, Nat.zero_add]
  cases shape : (tokensFrom (Text.byteSize (front.flatMap Lexeme.text)) after).filter
      fun token => !token.isTrivia with
  | nil => rfl
  | cons token pending =>
    have member := (List.mem_filter.mp (shape ▸ List.mem_cons_self)).1
    rw [List.find?_cons_of_pos (by simpa using (behind.bounds member).1), List.head?_cons]

theorem lexemes_of_nextSignificant? {tag : Tag}
    (next : (nextSignificant? source (Text.byteSize (front.flatMap Lexeme.text))).map Token.tag =
      some tag) :
    ∃ middle first behind, after = middle ++ first :: behind ∧
      (∀ lexeme ∈ middle, lexeme.tag.isTrivia) ∧ first.tag = tag := by
  rw [nextSignificant?_of_cut cut] at next
  rcases trivia_or_trimmed after with all | ⟨middle, inside, right, rfl, trivia, trimmed, -⟩
  · rw [filter_trivia (isTrivia_tokensFrom all)] at next
    cases next
  · obtain ⟨first, more, rfl, significant⟩ := trimmed.exists_cons
    have visible (place : Nat) : (Token.ofLexeme place first).isTrivia = false := significant
    rw [List.append_assoc, tokensFrom_append, List.filter_append,
      filter_trivia (isTrivia_tokensFrom trivia), List.nil_append, List.cons_append, tokensFrom,
      List.filter_cons_of_pos (by simp [visible])] at next
    exact ⟨middle, first, more ++ right, by simp, trivia, Option.some.inj next⟩

end Next

theorem hull_of_laid {start stop : Nat} {tokens : List Token} (laid : Laid start tokens stop) :
    (hull none tokens = none ∧ tokens.filter (fun token => !token.isTrivia) = []) ∨
      ∃ first rest last, tokens.filter (fun token => !token.isTrivia) = first :: rest ∧
        last ∈ tokens ∧ first.span.start < last.span.stop ∧
        hull none tokens = some ⟨first.span.start, last.span.stop⟩ := by
  induction laid with
  | nil => exact .inl ⟨rfl, rfl⟩
  | @cons _ _ token pending _ long more ih =>
    cases trivia : token.isTrivia with
    | true =>
      rw [hull_cons_trivia none pending trivia, List.filter_cons_of_neg (by simp [trivia])]
      apply ih.imp_right
      rintro ⟨first, rest, last, same, member, covered⟩
      exact ⟨first, rest, last, same, List.mem_cons_of_mem _ member, covered⟩
    | false =>
      have shape : extendFragment none token = some token.span := rfl
      rw [hull_cons_significant none pending trivia, shape,
        List.filter_cons_of_pos (by simp [trivia])]
      obtain ⟨upTo, covers, low, -, place⟩ := hull_some more (Nat.le_of_lt long) (Nat.le_refl _)
      refine .inr ⟨token, pending.filter fun token => !token.isTrivia, ?_⟩
      rcases place with rfl | ⟨last, member, rfl⟩
      · exact ⟨token, rfl, by simp, long, covers⟩
      · exact ⟨last, rfl, List.mem_cons_of_mem _ member, by omega, covers⟩

section Cut

variable {source : String} {before read back : List Token}

private theorem laid_of_cut (cut : tokens source = before ++ (read ++ back)) :
    ∃ start stop, Laid start read stop := by
  have laid := laid_tokens source
  rw [cut, laid_append] at laid
  obtain ⟨start, -, laid⟩ := laid
  obtain ⟨stop, laid, -⟩ := laid_append.mp laid
  exact ⟨start, stop, laid⟩

private theorem significantTokens_of_cut (cut : tokens source = before ++ (read ++ back)) :
    significantTokens source = before.filter (fun token => !token.isTrivia) ++
      (read.filter (fun token => !token.isTrivia) ++ back.filter (fun token => !token.isTrivia)) := by
  rw [significantTokens, cut, List.filter_append, List.filter_append]

theorem extent_of_hull (cut : tokens source = before ++ (read ++ back)) {span : Span}
    (covers : hull none read = some span) :
    Extent source (before.filter fun token => !token.isTrivia).length span ∧
      span.start < span.stop := by
  obtain ⟨start, stop, laid⟩ := laid_of_cut cut
  rcases hull_of_laid laid with ⟨none, -⟩ | ⟨first, rest, last, parts, member, long, same⟩
  · rw [none] at covers
    cases covers
  · rw [same] at covers
    cases covers
    have found : first ∈ read := by
      have kept : first ∈ read.filter fun token => !token.isTrivia := by simp [parts]
      exact (List.mem_filter.mp kept).1
    have place : significantStart source (before.filter fun token => !token.isTrivia).length =
        first.span.start := by
      rw [significantStart, significantTokens_of_cut cut, parts]
      simp
    refine ⟨⟨place.symm, Nat.le_of_lt long, ?_, ?_⟩, long⟩
    · exact isTokenBoundary_start (by simp [cut, found])
    · exact isTokenBoundary_stop (by simp [cut, member])

theorem coveredTokens_of_cut (cut : tokens source = before ++ (read ++ back)) {span : Span}
    (covers : hull none read = some span) :
    coveredTokens source span = read.filter fun token => !token.isTrivia := by
  have laid := laid_tokens source
  rw [cut, laid_append] at laid
  obtain ⟨start, ahead, laid⟩ := laid
  obtain ⟨stop, inside, behind⟩ := laid_append.mp laid
  rcases hull_of_laid inside with ⟨none, -⟩ | ⟨first, rest, last, parts, member, long, same⟩
  · rw [none] at covers
    cases covers
  obtain rfl := Option.some.inj (same.symm.trans covers)
  have found : first ∈ read.filter fun token => !token.isTrivia := by simp [parts]
  have low := inside.bounds (List.mem_filter.mp found).1
  have high := inside.bounds member
  rw [coveredTokens, significantTokens_of_cut cut, List.filter_append, List.filter_append]
  have outside (tokens : List Token) (beyond : ∀ token ∈ tokens,
      token.span.stop ≤ first.span.start ∨ last.span.stop ≤ token.span.start)
      (long : ∀ token ∈ tokens, token.span.start < token.span.stop) :
      (tokens.filter fun token => !token.isTrivia).filter (fun token =>
        decide (first.span.start ≤ token.span.start) &&
          decide (token.span.stop ≤ last.span.stop)) = [] := by
    refine List.filter_eq_nil_iff.mpr fun token member => ?_
    have member := (List.mem_filter.mp member).1
    have place := beyond token member
    have size := long token member
    simp only [Bool.and_eq_true, decide_eq_true_eq]
    omega
  rw [outside before, outside back, List.nil_append, List.append_nil]
  · refine List.filter_eq_self.mpr fun token member => ?_
    obtain ⟨member, visible⟩ := List.mem_filter.mp member
    have bounds := (within_hull covers).2 token member (by simpa using visible)
    simpa using bounds
  · intro token member
    have bounds := behind.bounds member
    omega
  · exact fun token member => (behind.bounds member).2.1
  · intro token member
    have bounds := ahead.bounds member
    omega
  · exact fun token member => (ahead.bounds member).2.1

theorem extent_of_upcoming (cut : tokens source = before ++ (read ++ back)) {offset : Nat}
    (upcoming : Upcoming source back offset) :
    Extent source (before.filter fun token => !token.isTrivia).length
      ((hull none read).getD (.point offset)) := by
  obtain ⟨start, stop, laid⟩ := laid_of_cut cut
  rcases hull_of_laid laid with ⟨none, empty⟩ | ⟨_, _, _, -, -, -, covers⟩
  · have kept := significantTokens_of_cut cut
    rw [empty, List.nil_append] at kept
    have here : significantStart source (before.filter fun token => !token.isTrivia).length =
        offset ∧ IsTokenBoundary source offset := by
      rw [significantStart, kept]
      cases upcoming with
      | atEnd => exact ⟨by simp, .inl rfl⟩
      | token significant => exact ⟨by simp [significant], isTokenBoundary_start (by simp [cut])⟩
    rw [none]
    exact ⟨here.1.symm, Nat.le_refl _, here.2, here.2⟩
  · rw [covers]
    exact (extent_of_hull cut covers).1

end Cut

end FragmentBounds
