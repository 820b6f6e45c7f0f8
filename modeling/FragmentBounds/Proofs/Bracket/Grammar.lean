import FragmentBounds.Proofs.Bracket.Closable

/-! The language of a bracket stack. Tokens are tracked to the end and leave
nothing open if and only if the brackets among them are a sentence of a grammar
with one symbol, and a closer is refused where they no longer begin one. -/
namespace FragmentBounds

def bracketTags (tokens : List Token) : List Tag := (tokens.map Token.tag).filter Tag.isBracket

/-- The sentences of the grammar: there is the empty one, and behind a sentence
another one may stand in brackets. -/
inductive Sentence : List Tag → Prop
  | empty : Sentence []
  | group {front inside : List Tag} (bracket : Bracket) (before : Sentence front)
      (inner : Sentence inside) :
      Sentence (front ++ .opening bracket :: (inside ++ [.closing bracket]))

/-- More brackets would make a sentence of these. -/
def Begins (tags : List Tag) : Prop := ∃ more, Sentence (tags ++ more)

section Sentences

variable {front back tags : List Tag}

theorem Sentence.append (left : Sentence front) (right : Sentence back) :
    Sentence (front ++ back) := by
  induction right with
  | empty => simpa using left
  | group bracket _ inner ih =>
    rw [← List.append_assoc]
    exact .group bracket ih inner

theorem Sentence.isBracket (sentence : Sentence tags) : ∀ tag ∈ tags, tag.isBracket := by
  induction sentence with
  | empty => simp
  | group bracket _ _ before inner =>
    intro tag member
    simp only [List.mem_append, List.mem_cons, List.not_mem_nil, or_false] at member
    rcases member with member | rfl | member | rfl
    · exact before tag member
    · rfl
    · exact inner tag member
    · rfl

theorem Sentence.balanced (sentence : Sentence tags) : Balanced tags := by
  induction sentence with
  | empty => exact .nil
  | group bracket _ _ before inner => exact before.append (.group bracket inner .nil)

theorem Balanced.sentence (balanced : Balanced tags) : Sentence (tags.filter Tag.isBracket) := by
  induction balanced with
  | nil => exact .empty
  | plain plain _ ih =>
    rw [List.filter_cons_of_neg (by simp [plain])]
    exact ih
  | group bracket _ _ inner rest =>
    rw [List.filter_cons_of_pos rfl, List.filter_append, List.filter_cons_of_pos rfl]
    simpa using (Sentence.group bracket .empty inner).append rest

theorem Balanced.of_filter (balanced : Balanced (tags.filter Tag.isBracket)) : Balanced tags := by
  generalize same : tags.filter Tag.isBracket = kept at balanced
  induction balanced generalizing tags with
  | nil => exact .of_plain (by simpa using same)
  | @plain tag _ plain _ _ =>
    have bracket : tag.isBracket := (List.mem_filter.mp (same ▸ List.mem_cons_self)).2
    rw [plain] at bracket
    cases bracket
  | group bracket _ _ inner rest =>
    obtain ⟨ahead, tail, rfl, before, -, opened⟩ := List.filter_eq_cons_iff.mp same
    obtain ⟨within, after, rfl, rfl, closed⟩ := List.filter_eq_append_iff.mp opened
    obtain ⟨passed, behind, rfl, between, -, rfl⟩ := List.filter_eq_cons_iff.mp closed
    have plain {tags : List Tag} (outside : ∀ tag ∈ tags, ¬ tag.isBracket) : Balanced tags :=
      .of_plain fun tag member => by simpa using outside tag member
    have inside : Balanced (within ++ passed) := (inner rfl).append (plain between)
    have group := Balanced.group bracket inside (rest rfl)
    simpa using (plain before).append group

theorem sentence_iff_balanced : Sentence (tags.filter Tag.isBracket) ↔ Balanced tags :=
  ⟨fun sentence => sentence.balanced.of_filter, Balanced.sentence⟩

theorem begins_iff_closable : Begins (tags.filter Tag.isBracket) ↔ Closable tags := by
  constructor
  · rintro ⟨more, sentence⟩
    have kept : more.filter Tag.isBracket = more := List.filter_eq_self.mpr fun tag member =>
      sentence.isBracket tag (List.mem_append_right _ member)
    refine ⟨more, sentence_iff_balanced.mp ?_⟩
    rwa [List.filter_append, kept]
  · rintro ⟨more, balanced⟩
    refine ⟨more.filter Tag.isBracket, ?_⟩
    rw [← List.filter_append]
    exact balanced.sentence

end Sentences

def Nesting.trackAll (nesting : Nesting) (tokens : List Token) : Except Fault Nesting :=
  tokens.foldlM Nesting.track nesting

/-- The token is refused where all those in front of it have been tracked. -/
def RefusedAfter (front : List Token) (token : Token) (fault : Fault) : Prop :=
  ∃ reached, Nesting.empty.trackAll front = .ok reached ∧ reached.track token = .error fault

/-- The token is the first closer with which the brackets no longer begin a
sentence. It is at fault for having nothing to close, or for not closing the
last bracket that was left open. -/
inductive FirstStray (front : List Token) (token : Token) : Fault → Prop
  | unmatched {bracket : Bracket} (tag : token.tag = .closing bracket)
      (begins : Begins (bracketTags front)) (stray : ¬ Begins (bracketTags (front ++ [token])))
      (closed : Sentence (bracketTags front)) :
      FirstStray front token (.bracket (.unmatched bracket) token.span.start)
  | mismatched {bracket : Bracket} {opener : Opener} (tag : token.tag = .closing bracket)
      (begins : Begins (bracketTags front)) (stray : ¬ Begins (bracketTags (front ++ [token])))
      (innermost : InnermostOpen front opener) :
      FirstStray front token
        (.bracket (.mismatched opener.bracket opener.offset bracket) token.span.start)

section Stack

variable {tokens front : List Token} {token : Token} {nesting last reached : Nesting} {fault : Fault}

theorem Nesting.trackAll_eq_ok : nesting.trackAll tokens = .ok last ↔ Tracked nesting tokens last := by
  induction tokens generalizing nesting with
  | nil =>
    constructor
    · intro same
      cases same
      exact .nil _
    · intro whole
      cases whole
      rfl
  | cons token tokens ih =>
    rw [trackAll, List.foldlM_cons]
    cases tracked : nesting.track token with
    | error fault =>
      refine ⟨nofun, fun whole => ?_⟩
      cases whole with
      | cons same _ => simp [tracked] at same
    | ok inner =>
      refine ih.trans ⟨.cons tracked, fun whole => ?_⟩
      cases whole with
      | cons same more =>
        obtain rfl := Except.ok.inj (tracked.symm.trans same)
        exact more

theorem Nesting.trackAll_eq_error : nesting.trackAll tokens = .error fault ↔
    ∃ front token back reached, tokens = front ++ token :: back ∧ Tracked nesting front reached ∧
      reached.track token = .error fault := by
  constructor
  · intro failed
    induction tokens generalizing nesting with
    | nil => cases failed
    | cons token tokens ih =>
      rw [trackAll, List.foldlM_cons] at failed
      cases tracked : nesting.track token with
      | error other =>
        rw [tracked] at failed
        cases failed
        exact ⟨[], token, tokens, nesting, rfl, .nil nesting, tracked⟩
      | ok inner =>
        rw [tracked] at failed
        obtain ⟨front, refused, back, reached, rfl, more, here⟩ := ih failed
        exact ⟨token :: front, refused, back, reached, rfl, .cons tracked more, here⟩
  · rintro ⟨front, token, back, reached, rfl, tracked, failed⟩
    rw [trackAll, List.foldlM_append, ← trackAll, trackAll_eq_ok.mpr tracked]
    change List.foldlM track reached (token :: back) = _
    rw [List.foldlM_cons, failed]
    rfl

theorem begins_iff_tracked : Begins (bracketTags tokens) ↔ ∃ last, Tracked .empty tokens last :=
  begins_iff_closable.trans closable_iff_tracked

theorem Tracked.begins_concat (tracked : Tracked .empty front reached) :
    Begins (bracketTags (front ++ [token])) ↔ ∃ next, reached.track token = .ok next := by
  rw [begins_iff_tracked]
  constructor
  · rintro ⟨last, whole⟩
    obtain ⟨middle, before, here⟩ := whole.split
    obtain rfl := before.unique tracked
    cases here with
    | cons next _ => exact ⟨_, next⟩
  · rintro ⟨next, here⟩
    exact ⟨next, tracked.append (.cons here (.nil next))⟩

theorem RefusedAfter.of_stray {bracket : Bracket} (tag : token.tag = .closing bracket)
    (begins : Begins (bracketTags front)) (stray : ¬ Begins (bracketTags (front ++ [token]))) :
    ∃ reached fault, Tracked .empty front reached ∧ RefusedAfter front token fault ∧
      reached.close bracket token.span.start = .error fault := by
  obtain ⟨reached, tracked⟩ := begins_iff_tracked.mp begins
  rw [tracked.begins_concat] at stray
  cases failed : reached.track token with
  | ok next => exact absurd ⟨next, failed⟩ stray
  | error fault =>
    refine ⟨reached, fault, tracked, ⟨reached, Nesting.trackAll_eq_ok.mpr tracked, failed⟩, ?_⟩
    rwa [Nesting.track, tag] at failed

/-- A token is refused if and only if it is the first stray closer. -/
theorem refusedAfter_iff : RefusedAfter front token fault ↔ FirstStray front token fault := by
  constructor
  · rintro ⟨reached, begun, failed⟩
    have tracked := Nesting.trackAll_eq_ok.mp begun
    have begins := begins_iff_tracked.mpr ⟨reached, tracked⟩
    have stray : ¬ Begins (bracketTags (front ++ [token])) := by
      rw [tracked.begins_concat]
      rintro ⟨next, here⟩
      simp [failed] at here
    have leaves := tracked.leavesOpen
    obtain ⟨bracket, tag, closes⟩ := Nesting.track_eq_error.mp failed
    rcases Nesting.close_eq_error.mp closes with ⟨none, rfl⟩ | ⟨opener, _, inside, -, rfl⟩
    · rw [none] at leaves
      exact .unmatched tag begins stray leaves.balanced_of_nil.sentence
    · rw [inside] at leaves
      exact .mismatched tag begins stray leaves.innermostOpen
  · rintro (⟨tag, begins, stray, closed⟩ | ⟨tag, begins, stray, innermost⟩)
    · obtain ⟨reached, fault, tracked, refused, closes⟩ := RefusedAfter.of_stray tag begins stray
      obtain rfl := tracked.unique ((sentence_iff_balanced.mp closed).tracked .empty)
      rcases Nesting.close_eq_error.mp closes with ⟨-, rfl⟩ | ⟨_, _, none, -⟩
      · exact refused
      · cases none
    · obtain ⟨reached, fault, tracked, refused, closes⟩ := RefusedAfter.of_stray tag begins stray
      obtain ⟨openers, inside⟩ := innermost.openers tracked
      rcases Nesting.close_eq_error.mp closes with ⟨none, -⟩ | ⟨opener, _, same, -, rfl⟩
      · simp [inside] at none
      · obtain ⟨rfl, -⟩ := List.cons.inj (inside.symm.trans same)
        exact refused

end Stack

/-- A bracket stack recognises the sentences of the grammar. It takes tokens to
the end and is empty there if and only if their brackets are a sentence. Where
a token is refused it is the first stray closer, and where none is, the stack
finds fault with the last bracket that was left open. -/
theorem trackAll_recognises (tokens : List Token) :
    ((∃ last, Nesting.empty.trackAll tokens = .ok last ∧ last.ensureClosed = .ok ()) ↔
      Sentence (bracketTags tokens)) ∧
    (∀ fault, Nesting.empty.trackAll tokens = .error fault ↔
      ∃ front token back, tokens = front ++ token :: back ∧ RefusedAfter front token fault) ∧
    (∀ front token fault, RefusedAfter front token fault ↔ FirstStray front token fault) ∧
    ∀ fault,
      (∃ last, Nesting.empty.trackAll tokens = .ok last ∧ last.ensureClosed = .error fault) ↔
        Begins (bracketTags tokens) ∧ ∃ opener, InnermostOpen tokens opener ∧
          fault = .bracket (.unclosed opener.bracket) opener.offset := by
  refine ⟨?_, fun fault => ?_, fun _ _ _ => refusedAfter_iff, ?_⟩
  · rw [bracketTags, sentence_iff_balanced]
    simp only [Nesting.trackAll_eq_ok, Nesting.ensureClosed_eq_ok]
    constructor
    · rintro ⟨last, tracked, closed⟩
      exact tracked.balanced rfl closed
    · intro balanced
      exact ⟨.empty, balanced.tracked .empty, rfl⟩
  · simp only [Nesting.trackAll_eq_error, RefusedAfter, Nesting.trackAll_eq_ok, exists_and_left]
  · intro fault
    simp only [begins_iff_tracked, Nesting.trackAll_eq_ok]
    constructor
    · rintro ⟨last, tracked, failed⟩
      obtain ⟨opener, openers, inside, rfl⟩ := Nesting.ensureClosed_eq_error.mp failed
      have leaves := tracked.leavesOpen
      rw [inside] at leaves
      exact ⟨⟨last, tracked⟩, opener, leaves.innermostOpen, rfl⟩
    · rintro ⟨⟨last, tracked⟩, opener, innermost, rfl⟩
      obtain ⟨openers, inside⟩ := innermost.openers tracked
      exact ⟨last, tracked, Nesting.ensureClosed_eq_error.mpr ⟨opener, openers, inside, rfl⟩⟩

end FragmentBounds
