import FragmentBounds.Proofs.Recognizer.Reading
import FragmentBounds.Proofs.Token.Extent
import FragmentBounds.Proofs.Token.Places

/-! Machines that ignore the gaps between tokens. They run over the significant
tokens alone, which lie one behind another, so that what they cover reaches from
the first to the last. -/
namespace FragmentBounds

variable {source : String}

theorem visible_significantTokens : ∀ token ∈ significantTokens source, token.isTrivia = false := by
  intro token member
  simpa using (List.mem_filter.mp member).2

theorem long_significantTokens :
    ∀ token ∈ significantTokens source, token.span.start < token.span.stop := fun _ member =>
  ((laid_tokens source).bounds (List.mem_filter.mp member).1).2.1

theorem ordered_significantTokens :
    (significantTokens source).Pairwise fun left right => left.span.stop ≤ right.span.start :=
  (laid_tokens source).ordered.sublist List.filter_sublist

theorem hull_behind {span : Span} {tokens : List Token}
    (visible : ∀ token ∈ tokens, token.isTrivia = false)
    (long : ∀ token ∈ tokens, token.span.start < token.span.stop)
    (ordered : tokens.Pairwise fun left right => left.span.stop ≤ right.span.start)
    (forward : span.start ≤ span.stop) (behind : ∀ token ∈ tokens, span.stop ≤ token.span.start) :
    hull (some span) tokens =
      some ⟨span.start, (tokens.getLast?.map (·.span.stop)).getD span.stop⟩ := by
  induction tokens generalizing span with
  | nil => rfl
  | cons token tokens ih =>
    have here := behind token (by simp)
    have size := long token (by simp)
    obtain ⟨after, more⟩ := List.pairwise_cons.mp ordered
    have wider : extendFragment (some span) token = some ⟨span.start, token.span.stop⟩ := by
      simp only [extendFragment, Option.elim_some, Span.merge]
      rw [Nat.min_eq_left (by omega), Nat.max_eq_right (by omega)]
    have rest := @ih ⟨span.start, token.span.stop⟩
      (fun other member => visible other (List.mem_cons_of_mem _ member))
      (fun other member => long other (List.mem_cons_of_mem _ member)) more (by simp only; omega) after
    rw [hull_cons_significant _ _ (visible token (by simp)), wider, rest]
    cases tokens <;> simp [List.getLast?_cons]

theorem hull_significant {first last : Token} {tokens : List Token}
    (part : tokens.Sublist (significantTokens source)) (begins : tokens.head? = some first)
    (ends : tokens.getLast? = some last) :
    hull none tokens = some ⟨first.span.start, last.span.stop⟩ := by
  obtain ⟨rest, rfl⟩ := List.head?_eq_some_iff.mp begins
  have visible : ∀ token ∈ first :: rest, token.isTrivia = false := fun token member =>
    visible_significantTokens token (part.subset member)
  have long : ∀ token ∈ first :: rest, token.span.start < token.span.stop := fun token member =>
    long_significantTokens token (part.subset member)
  obtain ⟨behind, ordered⟩ := List.pairwise_cons.mp (ordered_significantTokens.sublist part)
  have shape : extendFragment none first = some first.span := rfl
  rw [hull_cons_significant _ _ (visible first (by simp)), shape,
    hull_behind (fun token member => visible token (List.mem_cons_of_mem _ member))
      (fun token member => long token (List.mem_cons_of_mem _ member)) ordered
      (Nat.le_of_lt (long first (by simp))) behind]
  cases rest with
  | nil =>
    obtain rfl : first = last := by simpa using ends
    rfl
  | cons next rest =>
    rw [List.getLast?_cons_cons] at ends
    rw [ends, Option.map_some, Option.getD_some]

theorem merge_significant {first last : Token} {between rest : List Token}
    (cut : significantTokens source = first :: (between ++ last :: rest)) :
    first.span.merge last.span = ⟨first.span.start, last.span.stop⟩ := by
  have ordered := @ordered_significantTokens source
  have long := @long_significantTokens source
  rw [cut] at ordered long
  have before := (List.pairwise_cons.mp ordered).1 last (by simp)
  have low := long first (by simp)
  have high := long last (by simp)
  rw [Span.merge, Nat.min_eq_left (by omega), Nat.max_eq_right (by omega)]

theorem lexemes_of_significantTokens {first last : Token} {between rest : List Token}
    (cut : significantTokens source = first :: (between ++ last :: rest)) :
    ∃ before head middle final after,
      lexemes source.toList = before ++ (head :: (middle ++ [final])) ++ after ∧
        (∀ lexeme ∈ before, lexeme.tag.isTrivia) ∧
        first = .ofLexeme (Text.byteSize (before.flatMap Lexeme.text)) head ∧
        between = (tokensFrom (Text.byteSize (before.flatMap Lexeme.text) + head.byteSize)
          middle).filter (fun token => !token.isTrivia) ∧
        last = .ofLexeme (Text.byteSize (before.flatMap Lexeme.text) + head.byteSize +
          Text.byteSize (middle.flatMap Lexeme.text)) final := by
  obtain ⟨skipped, ahead, whole, trivia, -, kept⟩ := List.filter_eq_cons_iff.mp cut
  obtain ⟨inside, tail, rfl, rfl, ended⟩ := List.filter_eq_append_iff.mp kept
  obtain ⟨passed, behind, rfl, also, -, rfl⟩ := List.filter_eq_cons_iff.mp ended
  obtain ⟨before, onwards, same, rfl, begun⟩ := tokensFrom_eq_append whole
  rw [Nat.zero_add] at begun
  obtain ⟨head, more, rfl, rfl, inner⟩ := tokensFrom_eq_cons begun.symm
  rw [← List.append_assoc] at inner
  obtain ⟨middle, ending, rfl, front, ended⟩ := tokensFrom_eq_append inner.symm
  obtain ⟨final, after, rfl, rfl, -⟩ := tokensFrom_eq_cons ended.symm
  refine ⟨before, head, middle, final, after, by simp [same], ?_, rfl, ?_, rfl⟩
  · exact tag_of_mem_lexemes (P := fun tag => tag.isTrivia) (by simpa [Token.isTrivia] using trivia)
  · rw [← front, List.filter_append, @filter_trivia passed (by simpa using also),
      List.append_nil]

theorem significantTokens_of_lexemes {before middle after : List Lexeme} {head final : Lexeme}
    (cut : lexemes source.toList = before ++ (head :: (middle ++ [final])) ++ after)
    (trivia : ∀ lexeme ∈ before, lexeme.tag.isTrivia) (opens : head.tag.isTrivia = false)
    (closes : final.tag.isTrivia = false) :
    ∃ rest, significantTokens source =
      .ofLexeme (Text.byteSize (before.flatMap Lexeme.text)) head ::
        ((tokensFrom (Text.byteSize (before.flatMap Lexeme.text) + head.byteSize)
            middle).filter (fun token => !token.isTrivia) ++
          .ofLexeme (Text.byteSize (before.flatMap Lexeme.text) + head.byteSize +
            Text.byteSize (middle.flatMap Lexeme.text)) final :: rest) := by
  have visible {lexeme : Lexeme} (significant : lexeme.tag.isTrivia = false) (start : Nat) :
      (Token.ofLexeme start lexeme).isTrivia = false := significant
  rw [significantTokens, tokens, cut, List.append_assoc, tokensFrom_append, Nat.zero_add,
    List.filter_append, filter_trivia (isTrivia_tokensFrom trivia), List.nil_append, List.cons_append,
    tokensFrom, List.filter_cons_of_pos (by simp [visible opens]), List.append_assoc,
    tokensFrom_append, List.filter_append, List.singleton_append, tokensFrom,
    List.filter_cons_of_pos (by simp [visible closes])]
  exact ⟨_, rfl⟩

theorem map_tag_significant (start : Nat) (lexemes : List Lexeme) :
    ((tokensFrom start lexemes).filter fun token => !token.isTrivia).map Token.tag =
      (lexemes.map Lexeme.tag).filter fun tag => !tag.isTrivia := by
  rw [← map_tag_tokensFrom start lexemes, List.filter_map]
  rfl

theorem filter_tokensFrom_concat (start : Nat) (front : List Lexeme) {final : Lexeme}
    {after : List Lexeme} (visible : final.tag.isTrivia = false)
    (trivia : ∀ lexeme ∈ after, lexeme.tag.isTrivia) :
    (tokensFrom start (front ++ final :: after)).filter (fun token => !token.isTrivia) =
      (tokensFrom start front).filter (fun token => !token.isTrivia) ++
        [.ofLexeme (start + Text.byteSize (front.flatMap Lexeme.text)) final] := by
  have kept (place : Nat) : (Token.ofLexeme place final).isTrivia = false := visible
  rw [tokensFrom_append, tokensFrom, List.filter_append, List.filter_cons_of_pos (by simp [kept]),
    filter_trivia (isTrivia_tokensFrom trivia)]

namespace Recognizer

variable {σ α : Type} {machine : Recognizer σ α}

/-- Every step is the same whatever lies in front of the token. -/
def Blind (machine : Recognizer σ α) : Prop :=
  ∀ state gap other token, machine.step state gap token = machine.step state other token

theorem Blind.run_eq_run_filter (blind : machine.Blind) (size : Nat) (state : σ) (gap other : Gap)
    (tokens : List Token) :
    machine.run size state gap tokens =
      machine.run size state other (tokens.filter fun token => !token.isTrivia) := by
  induction tokens generalizing state gap other with
  | nil => rfl
  | cons token tokens ih =>
    cases trivia : token.isTrivia with
    | true =>
      rw [run_trivia _ _ _ _ _ trivia, List.filter_cons_of_neg (by simp [trivia])]
      exact ih state _ other
    | false =>
      rw [List.filter_cons_of_pos (by simp [trivia])]
      cases malformed : token.tag.isMalformed with
      | true =>
        obtain ⟨kind, tag⟩ := Tag.isMalformed_iff.mp malformed
        rw [run_malformed _ _ _ _ _ tag, run_malformed _ _ _ _ _ tag]
      | false =>
        rw [run_significant _ _ _ _ _ trivia malformed, run_significant _ _ _ _ _ trivia malformed,
          blind state gap other token]
        congr 1
        funext outcome
        cases outcome with
        | more next => exact ih next .closed .closed
        | done result => rfl

theorem Blind.recognize_eq_run (blind : machine.Blind) (fits : source.utf8ByteSize ≤ maxOffset) :
    machine.recognize source =
      machine.run source.utf8ByteSize machine.start .closed (significantTokens source) :=
  (recognize_of_fits machine fits).trans (blind.run_eq_run_filter _ _ _ _ _)

end Recognizer

end FragmentBounds
