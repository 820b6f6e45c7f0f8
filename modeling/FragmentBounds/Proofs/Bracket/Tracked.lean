import FragmentBounds.Proofs.Bracket.Balanced

/-! Brackets followed through a sequence of tokens. Where all are closed again,
they were balanced, and balanced tokens are followed through any nesting. -/
namespace FragmentBounds

/-- The tokens open and close brackets from one nesting to another. -/
inductive Tracked : Nesting → List Token → Nesting → Prop
  | nil (nesting : Nesting) : Tracked nesting [] nesting
  | cons {nesting inner last : Nesting} {token : Token} {pending : List Token}
      (tracked : nesting.track token = .ok inner) (more : Tracked inner pending last) :
      Tracked nesting (token :: pending) last

/-- Tags that close the open brackets, the innermost first, and are balanced
between the closers and behind them. -/
inductive Unwinds : List Bracket → List Tag → Prop
  | balanced {tags : List Tag} (balanced : Balanced tags) : Unwinds [] tags
  | closing {brackets : List Bracket} {inner rest : List Tag} (bracket : Bracket)
      (inside : Balanced inner) (more : Unwinds brackets rest) :
      Unwinds (bracket :: brackets) (inner ++ .closing bracket :: rest)

theorem Unwinds.plain {brackets : List Bracket} {tag : Tag} {tags : List Tag}
    (unwinds : Unwinds brackets tags) (plain : tag.isBracket = false) :
    Unwinds brackets (tag :: tags) := by
  cases unwinds with
  | balanced balanced => exact .balanced (.plain plain balanced)
  | closing bracket inside more => exact .closing bracket (.plain plain inside) more

theorem Unwinds.opening {brackets : List Bracket} {bracket : Bracket} {tags : List Tag}
    (unwinds : Unwinds (bracket :: brackets) tags) :
    Unwinds brackets (.opening bracket :: tags) := by
  cases unwinds with
  | closing _ inside more =>
    cases more with
    | balanced balanced => exact .balanced (.group bracket inside balanced)
    | closing outer between more =>
      have wider := Unwinds.closing outer (.group bracket inside between) more
      simpa using wider

theorem Balanced.of_plain {tags : List Tag} (plain : ∀ tag ∈ tags, tag.isBracket = false) :
    Balanced tags := by
  induction tags with
  | nil => exact .nil
  | cons tag tags ih =>
    exact .plain (plain tag (by simp)) (ih fun other member => plain other (List.mem_cons_of_mem _ member))

namespace Tracked

variable {nesting middle last : Nesting} {front back : List Token}

theorem append (tracked : Tracked nesting front middle) (more : Tracked middle back last) :
    Tracked nesting (front ++ back) last := by
  induction tracked with
  | nil => exact more
  | cons tracked _ ih => exact .cons tracked (ih more)

theorem split (tracked : Tracked nesting (front ++ back) last) :
    ∃ middle, Tracked nesting front middle ∧ Tracked middle back last := by
  induction front generalizing nesting with
  | nil => exact ⟨nesting, .nil nesting, tracked⟩
  | cons token front ih =>
    cases tracked with
    | cons tracked more =>
      obtain ⟨middle, first, second⟩ := ih more
      exact ⟨middle, .cons tracked first, second⟩

theorem unique (tracked : Tracked nesting front last) {other : Nesting}
    (also : Tracked nesting front other) : last = other := by
  induction tracked with
  | nil =>
    cases also
    rfl
  | cons tracked _ ih =>
    cases also with
    | cons same more =>
      obtain rfl := Except.ok.inj (tracked.symm.trans same)
      exact ih more

theorem eq_of_plain (tracked : Tracked nesting front last)
    (plain : ∀ token ∈ front, token.tag.isBracket = false) : last = nesting := by
  induction tracked with
  | nil => rfl
  | @cons nesting _ _ token _ tracked _ ih =>
    rw [nesting.track_plain (plain token (by simp))] at tracked
    cases tracked
    exact ih fun other member => plain other (List.mem_cons_of_mem _ member)

theorem significant (tracked : Tracked nesting front last) :
    Tracked nesting (front.filter fun token => !token.isTrivia) last := by
  induction tracked with
  | nil nesting => exact .nil nesting
  | @cons nesting _ _ token _ tracked _ ih =>
    cases trivia : token.isTrivia with
    | true =>
      rw [nesting.track_plain (Tag.isBracket_of_isTrivia trivia)] at tracked
      cases tracked
      rwa [List.filter_cons_of_neg (by simp [trivia])]
    | false =>
      rw [List.filter_cons_of_pos (by simp [trivia])]
      exact .cons tracked ih

theorem unwinds (tracked : Tracked nesting front last) (closed : last.isTopLevel) :
    Unwinds (nesting.openers.map Opener.bracket) (front.map Token.tag) := by
  induction tracked with
  | nil nesting =>
    rw [(Nesting.isTopLevel_iff nesting).mp closed]
    exact .balanced .nil
  | @cons nesting inner _ token _ tracked _ ih =>
    have more := ih closed
    rw [List.map_cons]
    cases tag : token.tag with
    | opening bracket =>
      rw [nesting.track_opening tag] at tracked
      cases tracked
      exact more.opening
    | closing bracket =>
      rw [Nesting.track, tag] at tracked
      obtain ⟨opener, openers, inside, rfl, rfl⟩ := Nesting.close_eq_ok.mp tracked
      rw [inside]
      exact .closing opener.bracket .nil more
    | _ =>
      have plain : token.tag.isBracket = false := by rw [tag]; rfl
      rw [nesting.track_plain plain] at tracked
      cases tracked
      rw [← tag]
      exact more.plain plain

theorem balanced (tracked : Tracked nesting front last) (opened : nesting.isTopLevel)
    (closed : last.isTopLevel) : Balanced (front.map Token.tag) := by
  have unwinds := tracked.unwinds closed
  rw [(Nesting.isTopLevel_iff nesting).mp opened] at unwinds
  cases unwinds with
  | balanced balanced => exact balanced

end Tracked

theorem Balanced.tracked {tokens : List Token} (balanced : Balanced (tokens.map Token.tag))
    (nesting : Nesting) : Tracked nesting tokens nesting := by
  generalize shape : tokens.map Token.tag = tags at balanced
  induction balanced generalizing tokens nesting with
  | nil =>
    obtain rfl := List.map_eq_nil_iff.mp shape
    exact .nil nesting
  | plain plain _ ih =>
    obtain ⟨token, tokens, rfl, rfl, same⟩ := List.map_eq_cons_iff.mp shape
    exact .cons (nesting.track_plain plain) (ih nesting same)
  | group bracket _ _ first second =>
    obtain ⟨opener, tokens, rfl, opens, same⟩ := List.map_eq_cons_iff.mp shape
    obtain ⟨inner, tail, rfl, within, after⟩ := List.map_eq_append_iff.mp same
    obtain ⟨closer, rest, rfl, closes, after⟩ := List.map_eq_cons_iff.mp after
    have closing := nesting.track_closing opener.span.start closes
    have inside := first (nesting.push bracket opener.span.start) within
    exact .cons (nesting.track_opening opens) (inside.append (.cons closing (second nesting after)))

theorem Balanced.inside {before inside after : List Token}
    (balanced : Balanced ((before ++ inside ++ after).map Token.tag))
    (left : ∀ token ∈ before, token.tag.isBracket = false)
    (right : ∀ token ∈ after, token.tag.isBracket = false) : Balanced (inside.map Token.tag) := by
  obtain ⟨reached, tracked, behind⟩ := (balanced.tracked .empty).split
  obtain ⟨entered, before, tracked⟩ := tracked.split
  obtain rfl := before.eq_of_plain left
  obtain rfl := behind.eq_of_plain right
  exact tracked.balanced rfl rfl

end FragmentBounds
