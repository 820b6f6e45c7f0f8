import FragmentBounds.Bracket.Nesting

/-! What one token does to the open brackets. -/
namespace FragmentBounds.Nesting

theorem track_plain (nesting : Nesting) {token : Token} (plain : token.tag.isBracket = false) :
    nesting.track token = .ok nesting := by
  unfold track
  split
  · next tag => simp [tag, Tag.isBracket, Tag.opens?] at plain
  · next tag => simp [tag, Tag.isBracket, Tag.closes?] at plain
  · rfl

theorem track_of_keyword? (nesting : Nesting) {token : Token} {keyword : Keyword}
    (spelled : token.keyword? = some keyword) : nesting.track token = .ok nesting := by
  apply track_plain
  rw [Token.tag_of_keyword? spelled]
  rfl

theorem track_opening (nesting : Nesting) {token : Token} {bracket : Bracket}
    (tag : token.tag = .opening bracket) :
    nesting.track token = .ok (nesting.push bracket token.span.start) := by
  rw [track, tag]

theorem track_closing (nesting : Nesting) {token : Token} {bracket : Bracket} (offset : Nat)
    (tag : token.tag = .closing bracket) :
    (nesting.push bracket offset).track token = .ok nesting := by
  rw [track, tag]
  exact close_push nesting bracket offset token.span.start

theorem isTopLevel_push (nesting : Nesting) (bracket : Bracket) (offset : Nat) :
    (nesting.push bracket offset).isTopLevel = false := rfl

theorem close_eq_ok {nesting next : Nesting} {bracket : Bracket} {offset : Nat} :
    nesting.close bracket offset = .ok next ↔ ∃ opener openers,
      nesting.openers = opener :: openers ∧ opener.bracket = bracket ∧
        next = ⟨openers, nesting.depths.modify bracket (· - 1)⟩ := by
  constructor
  · intro closes
    unfold close at closes
    split at closes
    · cases closes
    · next opener openers inside =>
      split at closes
      · next same =>
        cases closes
        exact ⟨opener, openers, inside, same, rfl⟩
      · cases closes
  · rintro ⟨opener, openers, inside, same, rfl⟩
    simp only [close, inside, if_pos same]

theorem closes_of_track {nesting next : Nesting} {token : Token}
    (tracked : nesting.track token = .ok next) (nested : nesting.isTopLevel = false)
    (topLevel : next.isTopLevel) : token.tag.closes?.isSome := by
  cases tag : token.tag with
  | closing bracket => rfl
  | opening bracket =>
    rw [track_opening nesting tag] at tracked
    cases tracked
    rw [isTopLevel_push] at topLevel
    cases topLevel
  | _ =>
    rw [track_plain nesting (by rw [tag]; rfl)] at tracked
    cases tracked
    simp [nested] at topLevel

theorem opens?_of_track {nesting next : Nesting} {token : Token}
    (tracked : nesting.track token = .ok next) (topLevel : next.isTopLevel) :
    token.tag.opens? = none := by
  cases tag : token.tag with
  | opening bracket =>
    rw [track_opening nesting tag] at tracked
    cases tracked
    rw [isTopLevel_push] at topLevel
    cases topLevel
  | _ => rfl

theorem mem_openers_of_track {nesting next : Nesting} {token : Token}
    (tracked : nesting.track token = .ok next) {opener : Opener} (member : opener ∈ next.openers) :
    opener ∈ nesting.openers ∨ opener.offset = token.span.start := by
  unfold track at tracked
  split at tracked
  · cases tracked
    rcases List.mem_cons.mp member with rfl | member
    · exact .inr rfl
    · exact .inl member
  · obtain ⟨innermost, openers, open', -, rfl⟩ := close_eq_ok.mp tracked
    rw [open']
    exact .inl (List.mem_cons_of_mem _ member)
  · cases tracked
    exact .inl member

theorem close_eq_error {nesting : Nesting} {bracket : Bracket} {offset : Nat} {fault : Fault} :
    nesting.close bracket offset = .error fault ↔
      (nesting.openers = [] ∧ fault = .bracket (.unmatched bracket) offset) ∨
        ∃ opener openers, nesting.openers = opener :: openers ∧ opener.bracket ≠ bracket ∧
          fault = .bracket (.mismatched opener.bracket opener.offset bracket) offset := by
  obtain ⟨openers, depths⟩ := nesting
  cases openers with
  | nil => simp [close, eq_comm]
  | cons opener openers =>
    rw [close]
    by_cases same : opener.bracket = bracket <;> simp [same, eq_comm (a := fault)]

theorem track_eq_error {nesting : Nesting} {token : Token} {fault : Fault} :
    nesting.track token = .error fault ↔ ∃ bracket, token.tag = .closing bracket ∧
      nesting.close bracket token.span.start = .error fault := by
  unfold track
  split <;> simp_all

theorem ensureClosed_eq_error {nesting : Nesting} {fault : Fault} :
    nesting.ensureClosed = .error fault ↔ ∃ opener openers,
      nesting.openers = opener :: openers ∧
        fault = .bracket (.unclosed opener.bracket) opener.offset := by
  obtain ⟨openers, depths⟩ := nesting
  cases openers <;> simp [ensureClosed, innermost?, eq_comm]

theorem offset_of_track_error {nesting : Nesting} {token : Token} {fault : Fault}
    (failed : nesting.track token = .error fault) : fault.offset = token.span.start := by
  obtain ⟨bracket, -, closes⟩ := track_eq_error.mp failed
  rcases close_eq_error.mp closes with ⟨-, rfl⟩ | ⟨opener, openers, -, -, rfl⟩ <;> rfl

theorem offset_of_ensureClosed_error {nesting : Nesting} {fault : Fault}
    (unclosed : nesting.ensureClosed = .error fault) :
    ∃ opener ∈ nesting.openers, fault.offset = opener.offset := by
  obtain ⟨opener, openers, inside, rfl⟩ := ensureClosed_eq_error.mp unclosed
  exact ⟨opener, by simp [inside], rfl⟩

theorem track_unmatched {nesting : Nesting} (topLevel : nesting.isTopLevel) {token : Token}
    {bracket : Bracket} (tag : token.tag = .closing bracket) :
    nesting.track token = .error (.bracket (.unmatched bracket) token.span.start) := by
  have nothing := (isTopLevel_iff nesting).mp topLevel
  exact track_eq_error.mpr ⟨bracket, tag, close_eq_error.mpr (.inl ⟨nothing, rfl⟩)⟩

/-- Why a token cannot come while brackets are open: it does not close the
innermost of them, or something else was expected. -/
inductive Refuses (nesting : Nesting) (token : Token) : Fault → Prop
  | bracket {fault : Fault} (failed : nesting.track token = .error fault) : Refuses nesting token fault
  | unexpected (what : Expectation) : Refuses nesting token (token.unexpected what)

/-- Why a source cannot end: a bracket is open, or something else was expected. -/
inductive Unfinished (nesting : Nesting) (size : Nat) : Fault → Prop
  | unclosed {fault : Fault} (failed : nesting.ensureClosed = .error fault) :
      Unfinished nesting size fault
  | unexpected (closed : nesting.isTopLevel) (what : Expectation) :
      Unfinished nesting size ((Token.endOfInput size).unexpected what)

theorem Refuses.offset_eq {nesting : Nesting} {token : Token} {fault : Fault}
    (refuses : nesting.Refuses token fault) : fault.offset = token.span.start := by
  cases refuses with
  | bracket failed => exact offset_of_track_error failed
  | unexpected what => rfl

theorem Unfinished.offset_eq {nesting : Nesting} {size : Nat} {fault : Fault}
    (unfinished : nesting.Unfinished size fault) :
    fault.offset = size ∨ ∃ opener ∈ nesting.openers, fault.offset = opener.offset := by
  cases unfinished with
  | unclosed failed => exact .inr (offset_of_ensureClosed_error failed)
  | unexpected closed what => exact .inl rfl

end FragmentBounds.Nesting
