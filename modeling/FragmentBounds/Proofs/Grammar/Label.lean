import FragmentBounds.Proofs.Fragment.Tracking
import FragmentBounds.Proofs.Recognizer.Significant

/-! Labels are recognised exactly where their grammar says. The machine takes in
what stands between `case` and the colon as far as the brackets allow, and stops
at nothing but the tags that no bracket encloses. -/
namespace FragmentBounds

def Tag.endsClause : Tag → Bool
  | .colon | .operator .define | .operator .assign => true
  | _ => false

/-- What a label says between `case` and its colon. A tag is outside brackets if
those before it match. -/
structure ClauseTags (tags : List Tag) : Prop where
  nonempty : tags ≠ []
  sound : ∀ tag ∈ tags, tag.isMalformed = false
  balanced : Balanced tags
  enclosed : ∀ front tag back, tags = front ++ tag :: back → Balanced front →
    tag.endsClause = false

/-- A label from its keyword to its colon. -/
inductive LabelWords : Token → List Token → Token → Prop
  | default {word colon : Token} (spelled : word.keyword? = some .kwDefault)
      (ends : colon.tag = .colon) : LabelWords word [] colon
  | case {word colon : Token} {words : List Token} (spelled : word.keyword? = some .kwCase)
      (clause : ClauseTags (words.map Token.tag)) (ends : colon.tag = .colon) :
      LabelWords word words colon

namespace Label

open Recognizer

theorem blind : recognizer.Blind := fun _ _ _ _ => rfl

variable {clause : Clause} {gap lastGap : Gap} {token : Token} {words : List Token} {last : State}

theorem step_clause {nesting : Nesting} (tracked : clause.nesting.track token = .ok nesting)
    (inside : clause.nesting.isTopLevel → token.tag.endsClause = false) :
    recognizer.step (.clause clause) gap token =
      .ok (.more (.clause ⟨clause.keyword, nesting, false⟩)) := by
  have neither (tag : Tag) (ends : tag.endsClause) :
      ¬ (clause.nesting.isTopLevel ∧ token.tag = tag) := by
    rintro ⟨topLevel, rfl⟩
    simp [inside topLevel] at ends
  change clause.step token = _
  rw [Clause.step, if_neg (neither _ rfl), if_neg, tracked]
  · rfl
  · rintro ⟨topLevel, tag | tag⟩
    · exact neither _ rfl ⟨topLevel, tag⟩
    · exact neither _ rfl ⟨topLevel, tag⟩

theorem endsClause_of_step_more (topLevel : clause.nesting.isTopLevel)
    (stepped : recognizer.step (.clause clause) gap token = .ok (.more last)) :
    token.tag.endsClause = false := by
  simp only [recognizer, step, Clause.step, topLevel, true_and] at stepped
  split at stepped
  · split at stepped <;> cases stepped
  · next other =>
    split at stepped
    · cases stepped
    · next neither =>
      unfold Tag.endsClause
      split <;> simp_all

theorem reads_clause {nesting : Nesting} (tracked : Tracked clause.nesting words nesting)
    (visible : ∀ token ∈ words, token.isTrivia = false)
    (sound : ∀ token ∈ words, token.tag.isMalformed = false)
    (enclosed : ∀ front token back reached, words = front ++ token :: back →
      Tracked clause.nesting front reached → reached.isTopLevel → token.tag.endsClause = false) :
    ∃ lastGap, Reads recognizer (.clause clause) gap words
      (.clause ⟨clause.keyword, nesting, clause.empty && words.isEmpty⟩) lastGap := by
  generalize begun : clause.nesting = first at tracked enclosed
  induction tracked generalizing clause gap with
  | nil nesting =>
    subst begun
    exact ⟨gap, by simpa using Reads.nil (State.clause clause) gap⟩
  | @cons _ inner _ token pending tracked more ih =>
    subst begun
    have stepped : recognizer.step (.clause clause) gap token =
        .ok (.more (.clause ⟨clause.keyword, inner, false⟩)) :=
      step_clause tracked fun topLevel => enclosed [] token pending _ rfl (.nil _) topLevel
    obtain ⟨lastGap, reads⟩ := @ih ⟨clause.keyword, inner, false⟩ .closed
      (fun other member => visible other (List.mem_cons_of_mem _ member))
      (fun other member => sound other (List.mem_cons_of_mem _ member)) rfl
      fun front other back reached cut before =>
        enclosed (token :: front) other back reached (by simp [cut]) (.cons tracked before)
    refine ⟨lastGap, ?_⟩
    simpa using Reads.step (visible token (by simp)) (sound token (by simp)) stepped reads

theorem clause_of_reads (reads : Reads recognizer (.clause clause) gap words last lastGap)
    (visible : ∀ token ∈ words, token.isTrivia = false) :
    ∃ nesting, last = .clause ⟨clause.keyword, nesting, clause.empty && words.isEmpty⟩ := by
  induction words generalizing clause gap with
  | nil =>
    cases reads
    exact ⟨clause.nesting, by simp⟩
  | cons token words ih =>
    cases reads with
    | trivia trivia _ => simp [visible token (by simp)] at trivia
    | step _ _ stepped more =>
      rcases step_more stepped with ⟨none, -⟩ | ⟨none, -⟩ | ⟨_, nesting, same, -, rfl⟩
      · cases none
      · cases none
      · cases same
        obtain ⟨final, rfl⟩ := ih more fun other member => visible other (List.mem_cons_of_mem _ member)
        exact ⟨final, by simp⟩

theorem clauseTags_of_reads {keyword : Span} {nesting : Nesting} {empty : Bool}
    (reads : Reads recognizer (.clause ⟨keyword, .empty, true⟩) gap words
      (.clause ⟨keyword, nesting, empty⟩) lastGap)
    (visible : ∀ token ∈ words, token.isTrivia = false) (topLevel : nesting.isTopLevel)
    (nonempty : words ≠ []) : ClauseTags (words.map Token.tag) where
  nonempty := by simpa using nonempty
  sound := by simpa using reads.wellFormed
  balanced := by
    have tracked : Tracked .empty words nesting := tracks.tracked reads
    exact tracked.balanced rfl topLevel
  enclosed := by
    intro front tag back cut balanced
    obtain ⟨before, after, rfl, rfl, same⟩ := List.map_eq_append_iff.mp cut
    obtain ⟨token, rest, rfl, rfl, rfl⟩ := List.map_eq_cons_iff.mp same
    obtain ⟨reached, reachedGap, seen, here⟩ := reads.split
    have kept : reached.nesting = .empty :=
      Tracked.unique (tracks.tracked seen) (balanced.tracked .empty)
    obtain ⟨nesting, rfl⟩ := clause_of_reads seen fun other member =>
      visible other (List.mem_append_left _ member)
    obtain rfl : nesting = .empty := kept
    cases here with
    | trivia trivia _ => simp [visible token (by simp)] at trivia
    | step _ _ stepped _ => exact endsClause_of_step_more rfl stepped

variable {size : Nat} {word colon : Token} {rest : List Token}

theorem labelWords_of_run {tokens : List Token} {span : Span}
    (visible : ∀ token ∈ tokens, token.isTrivia = false)
    (found : recognizer.run size .keyword .closed tokens = .ok span) :
    ∃ word words colon rest, tokens = word :: (words ++ colon :: rest) ∧
      LabelWords word words colon ∧ span = word.span.merge colon.span := by
  obtain ⟨front, back, last, gap, rfl, reads, settles⟩ :=
    reads_settles recognizer size .keyword .closed tokens
  rw [found] at settles
  rcases settles_eq_ok settles with ⟨-, ended⟩ | ⟨colon, rest, rfl, -, -, stepped⟩
  · exact absurd ended (atEnd_ne_ok last size span)
  obtain ⟨tag, ends⟩ := step_done stepped
  cases reads with
  | nil => rcases ends with ⟨_, none, -⟩ | ⟨_, none, -⟩ <;> cases none
  | trivia trivia _ => simp [visible _ List.mem_cons_self] at trivia
  | @step _ _ _ _ _ word words _ _ begun more =>
    have seen : ∀ token ∈ words, token.isTrivia = false := fun token member =>
      visible token (by simp [member])
    rcases step_more begun with ⟨-, spelled, rfl⟩ | ⟨-, spelled, rfl⟩ | ⟨_, _, none, -⟩
    -- Behind `default` no token is taken in, so the colon comes next.
    · cases more with
      | nil =>
        rcases ends with ⟨_, same, rfl⟩ | ⟨_, none, -⟩
        · cases same
          exact ⟨word, [], colon, rest, rfl, .default spelled tag, rfl⟩
        · cases none
      | trivia trivia _ => simp [seen _ List.mem_cons_self] at trivia
      | step _ _ stepped _ =>
        rcases step_more stepped with ⟨none, -⟩ | ⟨none, -⟩ | ⟨_, _, none, -⟩ <;> cases none
    · obtain ⟨nesting, rfl⟩ := clause_of_reads more seen
      rcases ends with ⟨_, none, -⟩ | ⟨_, same, topLevel, full, rfl⟩
      · cases none
      · cases same
        have nonempty : words ≠ [] := by
          rintro rfl
          cases full
        have clause := clauseTags_of_reads more seen topLevel nonempty
        exact ⟨word, words, colon, rest, rfl, .case spelled clause tag, rfl⟩
    · cases none

private theorem reads_keyword {keyword : Keyword} {state : State}
    (spelled : word.keyword? = some keyword)
    (stepped : recognizer.step .keyword .closed word = .ok (.more state)) :
    Reads recognizer .keyword .closed [word] state .closed := by
  have tag := Token.tag_of_keyword? spelled
  exact .step (Token.isTrivia_of_tag tag rfl) (by rw [tag]; rfl) stepped (.nil _ _)

theorem run_of_labelWords (label : LabelWords word words colon)
    (visible : ∀ token ∈ words, token.isTrivia = false) :
    recognizer.run size .keyword .closed (word :: (words ++ colon :: rest)) =
      .ok (word.span.merge colon.span) := by
  obtain ⟨state, gap, reads, stepped, tag⟩ : ∃ state gap,
      Reads recognizer .keyword .closed (word :: words) state gap ∧
        recognizer.step state gap colon = .ok (.done (word.span.merge colon.span)) ∧
          colon.tag = .colon := by
    cases label with
    | default spelled ends =>
      refine ⟨.colon word.span, .closed, reads_keyword spelled ?_, ?_, ends⟩
      · simp only [recognizer, step, spelled]
      · simp only [recognizer, step, ends, if_true]
    | case spelled clause ends =>
      have begun : recognizer.step .keyword .closed word =
          .ok (.more (.clause ⟨word.span, .empty, true⟩)) := by
        simp only [recognizer, step, spelled]
      have sound : ∀ token ∈ words, token.tag.isMalformed = false := by simpa using clause.sound
      obtain ⟨gap, reads⟩ := @reads_clause ⟨word.span, .empty, true⟩ .closed words .empty
        (clause.balanced.tracked .empty) visible sound fun front token back _ cut before topLevel =>
          clause.enclosed _ token.tag (back.map Token.tag) (by simp [cut]) (before.balanced rfl topLevel)
      refine ⟨_, gap, (reads_keyword spelled begun).append reads, ?_, ends⟩
      change Clause.step _ colon = _
      rw [Clause.step, if_pos ⟨rfl, ends⟩, if_neg (by simpa using clause.nonempty)]
  rw [← List.cons_append, reads.run_append]
  exact (Settles.of_tag tag rfl rfl stepped).run_eq

variable {source : String} {span : Span}

theorem labelWords_of_extract (extracted : Construct.label.extract source = .ok span) :
    source.utf8ByteSize ≤ maxOffset ∧ ∃ word words colon rest,
      significantTokens source = word :: (words ++ colon :: rest) ∧
        LabelWords word words colon ∧ span = ⟨word.span.start, colon.span.stop⟩ := by
  obtain ⟨fits, -⟩ := recognize_eq_ok extracted
  rw [Construct.extract, blind.recognize_eq_run fits] at extracted
  obtain ⟨word, words, colon, rest, cut, label, rfl⟩ :=
    labelWords_of_run visible_significantTokens extracted
  exact ⟨fits, word, words, colon, rest, cut, label, merge_significant cut⟩

theorem extract_of_labelWords (fits : source.utf8ByteSize ≤ maxOffset)
    (cut : significantTokens source = word :: (words ++ colon :: rest))
    (label : LabelWords word words colon) :
    Construct.label.extract source = .ok ⟨word.span.start, colon.span.stop⟩ := by
  have visible : ∀ token ∈ words, token.isTrivia = false := fun token member =>
    @visible_significantTokens source token (by simp [cut, member])
  rw [Construct.extract, blind.recognize_eq_run fits, cut, ← merge_significant cut]
  exact run_of_labelWords label visible

end Label

/-- A label is recognised if and only if the significant tokens of the source
begin with one, and its span runs from the keyword to the end of the colon. No
token behind the colon matters, malformed or not. -/
theorem extract_label_iff {source : String} {span : Span} :
    Construct.label.extract source = .ok span ↔
      source.utf8ByteSize ≤ maxOffset ∧ ∃ word words colon rest,
        significantTokens source = word :: (words ++ colon :: rest) ∧
          LabelWords word words colon ∧ span = ⟨word.span.start, colon.span.stop⟩ := by
  constructor
  · exact Label.labelWords_of_extract
  · rintro ⟨fits, word, words, colon, rest, cut, label, rfl⟩
    exact Label.extract_of_labelWords fits cut label

end FragmentBounds
