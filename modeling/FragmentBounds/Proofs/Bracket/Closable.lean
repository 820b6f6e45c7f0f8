import FragmentBounds.Proofs.Bracket.Tracked

/-! Beginnings of balanced tags. These are exactly the tags that brackets can
be followed through, and the openers in the nesting behind them are the ones
they leave open. -/
namespace FragmentBounds

/-- Tags with which balanced tags may begin. -/
def Closable (tags : List Tag) : Prop := ∃ more, Balanced (tags ++ more)

/-- The brackets that tokens leave open, the innermost first. Behind an opener
that stays open the tokens are balanced up to the next one. -/
inductive LeavesOpen : List Opener → List Token → Prop
  | balanced {tokens : List Token} (balanced : Balanced (tokens.map Token.tag)) :
      LeavesOpen [] tokens
  | opening {openers : List Opener} {before after : List Token} {opener : Token}
      {bracket : Bracket} (outer : LeavesOpen openers before) (tag : opener.tag = .opening bracket)
      (inside : Balanced (after.map Token.tag)) :
      LeavesOpen (⟨bracket, opener.span.start⟩ :: openers) (before ++ opener :: after)

/-- The last bracket that tokens open and do not close. -/
inductive InnermostOpen : List Token → Opener → Prop
  | mk {before inside : List Token} {token : Token} {bracket : Bracket}
      (tag : token.tag = .opening bracket) (balanced : Balanced (inside.map Token.tag)) :
      InnermostOpen (before ++ token :: inside) ⟨bracket, token.span.start⟩

theorem LeavesOpen.append {openers : List Opener} {tokens more : List Token}
    (leaves : LeavesOpen openers tokens) (balanced : Balanced (more.map Token.tag)) :
    LeavesOpen openers (tokens ++ more) := by
  cases leaves with
  | balanced already =>
    refine .balanced ?_
    rw [List.map_append]
    exact already.append balanced
  | opening outer tag inside =>
    rw [List.append_assoc, List.cons_append]
    refine .opening outer tag ?_
    rw [List.map_append]
    exact inside.append balanced

theorem LeavesOpen.track {nesting next : Nesting} {tokens : List Token} {token : Token}
    (leaves : LeavesOpen nesting.openers tokens) (tracked : nesting.track token = .ok next) :
    LeavesOpen next.openers (tokens ++ [token]) := by
  cases tag : token.tag with
  | opening bracket =>
    rw [nesting.track_opening tag] at tracked
    cases tracked
    exact .opening leaves tag .nil
  | closing bracket =>
    rw [Nesting.track, tag] at tracked
    obtain ⟨innermost, openers, open', rfl, rfl⟩ := Nesting.close_eq_ok.mp tracked
    rw [open'] at leaves
    cases leaves with
    | @opening _ before after opener bracket outer opens inside =>
      have group : Balanced ((opener :: after ++ [token]).map Token.tag) := by
        simpa [opens, tag] using Balanced.group bracket inside .nil
      simpa using outer.append group
  | _ =>
    have plain : token.tag.isBracket = false := by rw [tag]; rfl
    rw [nesting.track_plain plain] at tracked
    cases tracked
    exact leaves.append (.plain plain .nil)

theorem LeavesOpen.tracked {nesting last : Nesting} {before tokens : List Token}
    (leaves : LeavesOpen nesting.openers before) (tracked : Tracked nesting tokens last) :
    LeavesOpen last.openers (before ++ tokens) := by
  induction tracked generalizing before with
  | nil => simpa using leaves
  | cons tracked _ ih => simpa using ih (leaves.track tracked)

theorem Tracked.leavesOpen {tokens : List Token} {last : Nesting}
    (tracked : Tracked .empty tokens last) : LeavesOpen last.openers tokens := by
  have none : LeavesOpen Nesting.empty.openers [] := .balanced .nil
  exact none.tracked tracked

theorem LeavesOpen.innermostOpen {opener : Opener} {openers : List Opener} {tokens : List Token}
    (leaves : LeavesOpen (opener :: openers) tokens) : InnermostOpen tokens opener := by
  cases leaves with
  | opening _ tag inside => exact .mk tag inside

theorem LeavesOpen.balanced_of_nil {tokens : List Token} (leaves : LeavesOpen [] tokens) :
    Balanced (tokens.map Token.tag) := by
  cases leaves with
  | balanced balanced => exact balanced

theorem InnermostOpen.openers {tokens : List Token} {nesting : Nesting} {opener : Opener}
    (innermost : InnermostOpen tokens opener) {start : Nesting}
    (tracked : Tracked start tokens nesting) :
    ∃ openers, nesting.openers = opener :: openers := by
  cases innermost with
  | mk tag balanced =>
    obtain ⟨middle, -, after⟩ := tracked.split
    cases after with
    | cons opened more =>
      rw [middle.track_opening tag] at opened
      cases opened
      obtain rfl := more.unique (balanced.tracked _)
      exact ⟨middle.openers, rfl⟩

theorem Unwinds.prepend {brackets : List Bracket} {front tags : List Tag}
    (unwinds : Unwinds brackets tags) (balanced : Balanced front) :
    Unwinds brackets (front ++ tags) := by
  cases unwinds with
  | balanced already => exact .balanced (balanced.append already)
  | closing bracket inside more =>
    rw [← List.append_assoc]
    exact .closing bracket (balanced.append inside) more

theorem unwinds_closers (brackets : List Bracket) :
    Unwinds brackets (brackets.map Tag.closing) := by
  induction brackets with
  | nil => exact .balanced .nil
  | cons bracket brackets ih => exact .closing bracket .nil ih

theorem LeavesOpen.balanced_append {openers : List Opener} {tokens : List Token} {tags : List Tag}
    (leaves : LeavesOpen openers tokens) (unwinds : Unwinds (openers.map Opener.bracket) tags) :
    Balanced (tokens.map Token.tag ++ tags) := by
  induction leaves generalizing tags with
  | balanced balanced =>
    cases unwinds with
    | balanced more => exact balanced.append more
  | opening _ tag inside ih =>
    have more := ih (unwinds.prepend inside).opening
    simpa [tag] using more

theorem LeavesOpen.closable {openers : List Opener} {tokens : List Token}
    (leaves : LeavesOpen openers tokens) : Closable (tokens.map Token.tag) :=
  ⟨_, leaves.balanced_append (unwinds_closers _)⟩

/-- Brackets can be followed through the tokens of any closable tags. The tokens
that would close them are made up, for only their tags matter. -/
theorem Closable.tracked {tokens : List Token} (closable : Closable (tokens.map Token.tag)) :
    ∃ last, Tracked .empty tokens last := by
  obtain ⟨tags, balanced⟩ := closable
  let closers : List Token := tags.map fun tag => ⟨tag, .point 0, ""⟩
  have same : (tokens ++ closers).map Token.tag = tokens.map Token.tag ++ tags := by
    simp [closers, Function.comp_def]
  rw [← same] at balanced
  obtain ⟨last, tracked, -⟩ := (balanced.tracked .empty).split
  exact ⟨last, tracked⟩

theorem closable_iff_tracked {tokens : List Token} :
    Closable (tokens.map Token.tag) ↔ ∃ last, Tracked .empty tokens last :=
  ⟨Closable.tracked, fun ⟨_, tracked⟩ => tracked.leavesOpen.closable⟩

/-- A token that brackets cannot be followed past ends what is closable. -/
theorem Tracked.not_closable {front : List Token} {last : Nesting} {token : Token} {fault : Fault}
    (tracked : Tracked .empty front last) (failed : last.track token = .error fault) :
    ¬ Closable ((front ++ [token]).map Token.tag) := by
  intro closable
  obtain ⟨final, whole⟩ := closable.tracked
  obtain ⟨middle, before, here⟩ := whole.split
  obtain rfl := before.unique tracked
  cases here with
  | cons tracked _ =>
    rw [failed] at tracked
    cases tracked

end FragmentBounds
