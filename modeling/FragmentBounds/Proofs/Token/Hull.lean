import FragmentBounds.Proofs.Lexeme.Trimmed
import FragmentBounds.Proofs.Token.Layout

/-! The span from the first to the last significant token of a sequence, as
it is put together token by token. -/
namespace FragmentBounds

/-- The span of a fragment after more tokens, of which trivia does not count. -/
def hull (fragment : Option Span) (tokens : List Token) : Option Span :=
  tokens.foldl
    (fun fragment token => if token.isTrivia then fragment else extendFragment fragment token)
    fragment

@[simp] theorem hull_nil (fragment : Option Span) : hull fragment [] = fragment := rfl

theorem hull_cons_trivia (fragment : Option Span) {token : Token} (pending : List Token)
    (trivia : token.isTrivia) : hull fragment (token :: pending) = hull fragment pending := by
  simp [hull, trivia]

theorem hull_cons_significant (fragment : Option Span) {token : Token} (pending : List Token)
    (significant : token.isTrivia = false) :
    hull fragment (token :: pending) = hull (extendFragment fragment token) pending := by
  simp [hull, significant]

theorem hull_append (fragment : Option Span) (front back : List Token) :
    hull fragment (front ++ back) = hull (hull fragment front) back := by
  simp [hull]

theorem hull_trivia (fragment : Option Span) {tokens : List Token}
    (trivia : ∀ token ∈ tokens, token.isTrivia) : hull fragment tokens = fragment := by
  induction tokens with
  | nil => rfl
  | cons token tokens ih =>
    rw [hull_cons_trivia fragment tokens (trivia token (by simp))]
    exact ih fun other member => trivia other (List.mem_cons_of_mem _ member)

theorem hull_some {start stop : Nat} {tokens : List Token} (laid : Laid start tokens stop)
    {span : Span} (forward : span.start ≤ start) (before : span.stop ≤ start) :
    ∃ last, hull (some span) tokens = some ⟨span.start, last⟩ ∧ span.stop ≤ last ∧ last ≤ stop ∧
      (last = span.stop ∨ ∃ token ∈ tokens, token.span.stop = last) := by
  induction laid generalizing span with
  | nil => exact ⟨span.stop, rfl, Nat.le_refl _, before, .inl rfl⟩
  | @cons start stop token pending starts nonempty more ih =>
    cases trivia : token.isTrivia with
    | true =>
      rw [hull_cons_trivia _ _ trivia]
      obtain ⟨last, same, low, high, place⟩ := @ih span (by omega) (by omega)
      refine ⟨last, same, low, high, place.imp_right ?_⟩
      rintro ⟨other, member, same⟩
      exact ⟨other, List.mem_cons_of_mem _ member, same⟩
    | false =>
      have wider : extendFragment (some span) token = some ⟨span.start, token.span.stop⟩ := by
        simp only [extendFragment, Option.elim_some, Span.merge]
        rw [Nat.min_eq_left (by omega), Nat.max_eq_right (by omega)]
      rw [hull_cons_significant _ _ trivia, wider]
      obtain ⟨last, same, low, high, place⟩ :=
        @ih ⟨span.start, token.span.stop⟩ (by simp only; omega) (Nat.le_refl _)
      refine ⟨last, same, by simp only at low; omega, high, .inr ?_⟩
      rcases place with rfl | ⟨other, member, same⟩
      · exact ⟨token, by simp, rfl⟩
      · exact ⟨other, List.mem_cons_of_mem _ member, same⟩

theorem within_hull {fragment : Option Span} {tokens : List Token} {span : Span}
    (covers : hull fragment tokens = some span) :
    (∀ inner ∈ fragment, span.start ≤ inner.start ∧ inner.stop ≤ span.stop) ∧
      ∀ token ∈ tokens, token.isTrivia = false →
        span.start ≤ token.span.start ∧ token.span.stop ≤ span.stop := by
  induction tokens generalizing fragment with
  | nil =>
    rw [hull_nil] at covers
    simp [covers]
  | cons token tokens ih =>
    cases trivia : token.isTrivia with
    | true =>
      rw [hull_cons_trivia _ _ trivia] at covers
      simpa [trivia] using ih covers
    | false =>
      rw [hull_cons_significant _ _ trivia] at covers
      obtain ⟨wider, more⟩ := ih covers
      have outer := wider _ rfl
      cases fragment with
      | none =>
        refine ⟨by simp, fun other member visible => ?_⟩
        rcases List.mem_cons.mp member with rfl | member
        · exact outer
        · exact more other member visible
      | some inner =>
        simp only [Option.elim_some, Span.merge] at outer
        refine ⟨fun other same => ?_, fun other member visible => ?_⟩
        · obtain rfl := Option.some.inj same
          omega
        · rcases List.mem_cons.mp member with rfl | member
          · omega
          · exact more other member visible

theorem hull_trimmed {start stop : Nat} {tokens : List Token} (laid : Laid start tokens stop)
    (nonempty : tokens ≠ []) (first : ∀ token ∈ tokens.head?, token.isTrivia = false)
    (last : ∀ token ∈ tokens.getLast?, token.isTrivia = false) :
    hull none tokens = some ⟨start, stop⟩ := by
  obtain ⟨token, pending, rfl⟩ := List.exists_cons_of_ne_nil nonempty
  have place := laid.start_eq
  rw [hull_cons_significant _ _ (first token (by simp))]
  cases laid with
  | cons _ long more =>
    rcases List.eq_nil_or_concat pending with rfl | ⟨middle, final, rfl⟩
    · have ended := more.stop_unique (.nil _)
      rw [ended, place]
      rfl
    · rw [List.concat_eq_append] at more last ⊢
      obtain ⟨reached, laid, ending⟩ := laid_append.mp more
      obtain ⟨upTo, same, low, high, -⟩ := hull_some laid (Nat.le_of_lt long) (Nat.le_refl _)
      have ends := ending.start_eq
      cases ending with
      | cons _ longer nothing =>
        have ended := nothing.stop_unique (.nil _)
        have shape : extendFragment none token = some token.span := rfl
        have significant := last final (by rw [← List.cons_append, List.getLast?_concat]; rfl)
        rw [shape, hull_append, same, hull_cons_significant _ _ significant, hull_nil, ended]
        simp only [extendFragment, Option.elim_some, Span.merge]
        rw [Nat.min_eq_left (by omega), Nat.max_eq_right (by omega), place]

theorem hull_ends {start stop : Nat} {first last : Token} {middle : List Token}
    (laid : Laid start (first :: (middle ++ [last])) stop) (opens : first.isTrivia = false)
    (closes : last.isTrivia = false) :
    hull none (first :: (middle ++ [last])) = some (first.span.merge last.span) := by
  have whole := hull_trimmed laid (by simp) (by simpa using opens) (by
    rw [← List.cons_append, List.getLast?_concat]
    simpa using closes)
  obtain ⟨-, -, high⟩ := laid.bounds (show first ∈ first :: (middle ++ [last]) by simp)
  obtain ⟨low, -, -⟩ := laid.bounds (show last ∈ first :: (middle ++ [last]) by simp)
  have begins := laid.start_eq
  rw [← List.cons_append, laid_append] at laid
  obtain ⟨_, -, final⟩ := laid
  cases final with
  | cons _ _ nothing =>
    have ended := nothing.stop_unique (.nil _)
    rw [whole, Span.merge, Nat.min_eq_left (by omega), Nat.max_eq_right (by omega), begins, ended]

theorem tag_of_mem_tokensFrom {P : Tag → Prop} {start : Nat} {lexemes : List Lexeme}
    (all : ∀ lexeme ∈ lexemes, P lexeme.tag) : ∀ token ∈ tokensFrom start lexemes, P token.tag := by
  intro token member
  have tag : token.tag ∈ (tokensFrom start lexemes).map Token.tag := List.mem_map_of_mem member
  rw [map_tag_tokensFrom] at tag
  obtain ⟨lexeme, member, same⟩ := List.mem_map.mp tag
  rw [← same]
  exact all lexeme member

theorem isTrivia_tokensFrom {start : Nat} {lexemes : List Lexeme}
    (trivia : ∀ lexeme ∈ lexemes, lexeme.tag.isTrivia) :
    ∀ token ∈ tokensFrom start lexemes, token.isTrivia :=
  tag_of_mem_tokensFrom (P := fun tag => tag.isTrivia) trivia

theorem tag_of_mem_lexemes {P : Tag → Prop} {start : Nat} {lexemes : List Lexeme}
    (all : ∀ token ∈ tokensFrom start lexemes, P token.tag) : ∀ lexeme ∈ lexemes, P lexeme.tag := by
  intro lexeme member
  have tag : lexeme.tag ∈ lexemes.map Lexeme.tag := List.mem_map_of_mem member
  rw [← map_tag_tokensFrom start] at tag
  obtain ⟨token, member, same⟩ := List.mem_map.mp tag
  rw [← same]
  exact all token member

theorem head?_tokensFrom (start : Nat) (lexemes : List Lexeme) :
    (tokensFrom start lexemes).head? = lexemes.head?.map (.ofLexeme start) := by
  cases lexemes <;> rfl

theorem hull_inside (start : Nat) {inside : List Lexeme} (trimmed : Trimmed inside)
    (full : ∀ lexeme ∈ inside, lexeme.text ≠ []) :
    hull none (tokensFrom start inside) =
      some ⟨start, start + Text.byteSize (inside.flatMap Lexeme.text)⟩ := by
  refine hull_trimmed (laid_tokensFrom _ full) ?_ ?_ ?_
  · obtain ⟨lexeme, more, rfl, -⟩ := trimmed.exists_cons
    simp [tokensFrom]
  · intro token first
    rw [head?_tokensFrom] at first
    obtain ⟨lexeme, member, rfl⟩ := Option.map_eq_some_iff.mp first
    exact trimmed.first lexeme member
  · intro token final
    obtain ⟨body, lexeme, rfl, significant⟩ := trimmed.exists_concat
    rw [tokensFrom_append, tokensFrom, tokensFrom, List.getLast?_concat] at final
    rw [← Option.some.inj final]
    exact significant

theorem hull_tokensFrom (start : Nat) {before inside after : List Lexeme}
    (left : ∀ lexeme ∈ before, lexeme.tag.isTrivia) (trimmed : Trimmed inside)
    (full : ∀ lexeme ∈ inside, lexeme.text ≠ []) (right : ∀ lexeme ∈ after, lexeme.tag.isTrivia) :
    hull none (tokensFrom start (before ++ inside ++ after)) =
      some ⟨start + Text.byteSize (before.flatMap Lexeme.text),
        start + Text.byteSize (before.flatMap Lexeme.text) +
          Text.byteSize (inside.flatMap Lexeme.text)⟩ := by
  rw [tokensFrom_append, tokensFrom_append, hull_append, hull_append,
    hull_trivia _ (isTrivia_tokensFrom left), hull_trivia _ (isTrivia_tokensFrom right)]
  exact hull_inside _ trimmed full

end FragmentBounds
