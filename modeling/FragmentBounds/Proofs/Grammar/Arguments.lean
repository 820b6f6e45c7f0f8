import FragmentBounds.Proofs.Fragment.FirstFault
import FragmentBounds.Proofs.Recognizer.Significant

/-! Argument lists are what stands before the first closing brace that no bracket
encloses. Whether a brace is that one is said of the tokens before it alone,
faulty ones among them; the list is then taken whole, or its first fault is
found. -/
namespace FragmentBounds

/-- Every bracket that the tags open, they close again. -/
def ClosesAll (tags : List Tag) : Prop :=
  ∀ front bracket back, tags = front ++ .opening bracket :: back →
    ∃ inside rest, back = inside ++ .closing bracket :: rest ∧ Balanced inside

def EndsList (before : List Token) (token : Token) : Prop :=
  token.tag = .closing .brace ∧ ClosesAll (before.map Token.tag)

def Endless (tokens : List Token) : Prop :=
  ∀ before token, before ++ [token] <+: tokens → ¬ EndsList before token

/-- The significant tokens of a source, cut before the first brace that ends the
list. If there is none, they are all in the list. -/
structure Listed (source : String) (listed rest : List Token) : Prop where
  cut : significantTokens source = listed ++ rest
  endless : Endless listed
  ends : ∀ token ∈ rest.head?, EndsList listed token

/-- From the first token of a list to its last. An empty list is the place where
it ends. -/
def listSpan (source : String) (listed rest : List Token) : Span :=
  match listed.head?, listed.getLast? with
  | some first, some last => ⟨first.span.start, last.span.stop⟩
  | _, _ => .point ((rest.head?.map (·.span.start)).getD source.utf8ByteSize)

structure WellFormedList (listed : List Token) : Prop where
  sound : ∀ token ∈ listed, token.tag.isMalformed = false
  balanced : Balanced (listed.map Token.tag)

/-- The first fault of a list, with nothing wrong before it. A bracket that is
not closed is one where the source ends. -/
inductive ListFault (listed rest : List Token) : Fault → Prop
  | malformed {front back : List Token} {token : Token} {kind : Malformation}
      (cut : listed = front ++ token :: back) (faultless : Faultless front)
      (tag : token.tag = .malformed kind) :
      ListFault listed rest (.malformed kind token.span.start)
  | unmatched {front back : List Token} {token : Token} {bracket : Bracket}
      (cut : listed = front ++ token :: back) (faultless : Faultless front)
      (tag : token.tag = .closing bracket) (balanced : Balanced (front.map Token.tag)) :
      ListFault listed rest (.bracket (.unmatched bracket) token.span.start)
  | mismatched {front back : List Token} {token : Token} {opener : Opener} {bracket : Bracket}
      (cut : listed = front ++ token :: back) (faultless : Faultless front)
      (tag : token.tag = .closing bracket) (innermost : InnermostOpen front opener)
      (other : opener.bracket ≠ bracket) :
      ListFault listed rest
        (.bracket (.mismatched opener.bracket opener.offset bracket) token.span.start)
  | unclosed {opener : Opener} (ended : rest = []) (faultless : Faultless listed)
      (innermost : InnermostOpen listed opener) :
      ListFault listed rest (.bracket (.unclosed opener.bracket) opener.offset)

section Brackets

variable {tokens : List Token} {nesting : Nesting}

theorem Balanced.not_closing {inside rest : List Token} {closer : Token} {bracket : Bracket}
    (balanced : Balanced (inside.map Token.tag)) (tag : closer.tag = .closing bracket) :
    ¬ Balanced ((inside ++ closer :: rest).map Token.tag) := by
  intro whole
  obtain ⟨middle, before, after⟩ := (whole.tracked .empty).split
  obtain rfl := before.unique (balanced.tracked .empty)
  cases after with
  | cons tracked _ =>
    rw [Nesting.track_unmatched rfl tag] at tracked
    cases tracked

theorem Tracked.closesAll_iff (tracked : Tracked .empty tokens nesting) :
    ClosesAll (tokens.map Token.tag) ↔ nesting.isTopLevel := by
  constructor
  · intro closes
    have leaves := tracked.leavesOpen
    rw [Nesting.isTopLevel_iff]
    cases inside : nesting.openers with
    | nil => rfl
    | cons opener openers =>
      rw [inside] at leaves
      cases leaves with
      | @opening _ before after token bracket _ tag balanced =>
        obtain ⟨_, _, cut, inner⟩ := closes (before.map Token.tag) bracket (after.map Token.tag) (by
          simp [tag])
        obtain ⟨within, tail, rfl, rfl, same⟩ := List.map_eq_append_iff.mp cut
        obtain ⟨closer, rest, rfl, closing, -⟩ := List.map_eq_cons_iff.mp same
        exact absurd balanced (inner.not_closing closing)
  · intro topLevel front bracket back cut
    obtain ⟨before, tail, rfl, rfl, same⟩ := List.map_eq_append_iff.mp cut
    obtain ⟨opener, after, rfl, tag, rfl⟩ := List.map_eq_cons_iff.mp same
    obtain ⟨middle, -, behind⟩ := tracked.split
    cases behind with
    | cons opened more =>
      rw [middle.track_opening tag] at opened
      cases opened
      have unwinds := more.unwinds topLevel
      rw [Nesting.push, List.map_cons] at unwinds
      generalize after.map Token.tag = tags at unwinds
      cases unwinds with
      | closing _ inside _ => exact ⟨_, _, rfl, inside⟩

theorem Balanced.closesAll (balanced : Balanced (tokens.map Token.tag)) :
    ClosesAll (tokens.map Token.tag) :=
  (balanced.tracked .empty).closesAll_iff.mpr rfl

theorem Tracked.endless (tracked : Tracked .empty tokens nesting) : Endless tokens := by
  rintro before token ⟨rest, rfl⟩ ⟨brace, closes⟩
  rw [List.append_assoc] at tracked
  obtain ⟨reached, seen, here⟩ := tracked.split
  cases here with
  | cons closed _ =>
    rw [Nesting.track_unmatched (seen.closesAll_iff.mp closes) brace] at closed
    cases closed

end Brackets

theorem Endless.concat {seen : List Token} {token : Token} (endless : Endless seen)
    (goesOn : ¬ EndsList seen token) : Endless (seen ++ [token]) := by
  intro before last begins
  rcases List.prefix_concat_iff.mp begins with same | earlier
  · obtain ⟨rfl, here⟩ := List.append_inj' same rfl
    obtain rfl := List.singleton_inj.mp here
    exact goesOn
  · exact endless before last earlier

namespace Listed

variable {source : String} {listed rest : List Token}

theorem unique (this : Listed source listed rest) {front back : List Token}
    (other : Listed source front back) : front = listed ∧ back = rest := by
  have shorter {front listed back rest : List Token} (this : Listed source listed rest)
      (other : Listed source front back) {extra : List Token} (longer : listed = front ++ extra)
      (behind : back = extra ++ rest) : extra = [] := by
    cases extra with
    | nil => rfl
    | cons token extra =>
      have ends := other.ends token (by simp [behind])
      exact absurd ends (this.endless front token ⟨extra, by simp [longer]⟩)
  rcases List.append_eq_append_iff.mp (other.cut.symm.trans this.cut) with
    ⟨extra, longer, behind⟩ | ⟨extra, longer, behind⟩
  · obtain rfl := shorter this other longer behind
    exact ⟨by rw [longer, List.append_nil], by rw [behind, List.nil_append]⟩
  · obtain rfl := shorter other this longer behind
    exact ⟨by rw [longer, List.append_nil], by rw [behind, List.nil_append]⟩

theorem exists_of_endless {seen pending : List Token} (cut : significantTokens source = seen ++ pending)
    (endless : Endless seen) : ∃ more rest, Listed source (seen ++ more) rest := by
  induction pending generalizing seen with
  | nil => exact ⟨[], [], by simpa using cut, by simpa using endless, by simp⟩
  | cons token pending ih =>
    by_cases ends : EndsList seen token
    · exact ⟨[], token :: pending, by simpa using cut, by simpa using endless, by simpa using ends⟩
    · obtain ⟨more, rest, listed⟩ := ih (by simpa using cut) (endless.concat ends)
      exact ⟨token :: more, rest, by simpa using listed⟩

theorem exists_of_goesOn {seen pending : List Token} {token : Token}
    (cut : significantTokens source = seen ++ token :: pending) (endless : Endless seen)
    (goesOn : ¬ EndsList seen token) : ∃ more rest, Listed source (seen ++ token :: more) rest := by
  obtain ⟨more, rest, listed⟩ := exists_of_endless (by simpa using cut) (endless.concat goesOn)
  exact ⟨more, rest, by simpa using listed⟩

end Listed

theorem ListFault.not_wellFormed {listed rest : List Token} {fault : Fault}
    (first : ListFault listed rest fault) : ¬ WellFormedList listed := by
  rintro ⟨sound, balanced⟩
  cases first with
  | @malformed _ _ token _ cut _ tag =>
    have sound := sound token (by simp [cut])
    simp [tag, Tag.isMalformed] at sound
  | unmatched cut _ tag before =>
    rw [cut] at balanced
    exact before.not_closing tag balanced
  | mismatched cut _ tag innermost other =>
    rw [cut] at balanced
    obtain ⟨reached, before, after⟩ := (balanced.tracked .empty).split
    obtain ⟨openers, opened⟩ := innermost.openers before
    cases after with
    | cons closed _ =>
      rw [Nesting.track, tag] at closed
      obtain ⟨_, _, inside, same, -⟩ := Nesting.close_eq_ok.mp closed
      rw [opened] at inside
      cases inside
      exact other same
  | unclosed _ _ innermost =>
    obtain ⟨openers, opened⟩ := innermost.openers (balanced.tracked .empty)
    cases opened

theorem ListFault.of_track {listed rest front more : List Token} {token : Token} {fault : Fault}
    {nesting : Nesting} (cut : listed = front ++ token :: more) (faultless : Faultless front)
    (tracked : Tracked .empty front nesting) (failed : nesting.track token = .error fault) :
    ListFault listed rest fault := by
  have leaves := tracked.leavesOpen
  obtain ⟨bracket, tag, closes⟩ := Nesting.track_eq_error.mp failed
  rcases Nesting.close_eq_error.mp closes with ⟨none, rfl⟩ | ⟨opener, openers, inside, other, rfl⟩
  · rw [none] at leaves
    exact .unmatched cut faultless tag leaves.balanced_of_nil
  · rw [inside] at leaves
    exact .mismatched cut faultless tag leaves.innermostOpen other

namespace Arguments

open Recognizer

theorem blind : recognizer.Blind := fun _ _ _ _ => rfl

variable {source : String} {front back : List Token} {last : State} {gap : Gap}

theorem span_eq_listSpan (cut : significantTokens source = front ++ back)
    (covers : last.fragment = hull none front) :
    last.span ((back.head?.map (·.span.start)).getD source.utf8ByteSize) =
      listSpan source front back := by
  rw [State.span, covers, listSpan]
  cases begins : front.head? with
  | none =>
    rw [List.head?_eq_none_iff.mp begins]
    rfl
  | some first =>
    cases ends : front.getLast? with
    | none => simp [List.getLast?_eq_none_iff.mp ends] at begins
    | some final =>
      have part : front.Sublist (significantTokens source) := cut ▸ List.sublist_append_left front back
      rw [hull_significant part begins ends, Option.getD_some]

theorem track_of_step_error {token : Token} {fault : Fault}
    (stepped : recognizer.step last gap token = .error fault) :
    last.nesting.track token = .error fault ∧
      ¬ (last.nesting.isTopLevel ∧ token.tag = .closing .brace) := by
  simp only [recognizer, step] at stepped
  split at stepped
  · cases stepped
  · next other =>
    rcases bind_eq_error.mp stepped with failed | ⟨_, _, same⟩
    · exact ⟨failed, other⟩
    · cases same

theorem ensureClosed_of_atEnd_error {size : Nat} {fault : Fault}
    (ended : recognizer.atEnd last size = .error fault) :
    last.nesting.ensureClosed = .error fault := by
  rcases bind_eq_error.mp ended with unclosed | ⟨_, _, same⟩
  · exact unclosed
  · cases same

/-- What is given for a list: its span if it is well formed, and its first fault
if it is not. -/
inductive Gives (source : String) (listed rest : List Token) : Except Fault Span → Prop
  | span (wellFormed : WellFormedList listed) :
      Gives source listed rest (.ok (listSpan source listed rest))
  | fault {fault : Fault} (first : ListFault listed rest fault) :
      Gives source listed rest (.error fault)

theorem gives_of_settles {first : Gap} {outcome : Except Fault Span}
    (cut : significantTokens source = front ++ back)
    (reads : Reads recognizer recognizer.start first front last gap)
    (settles : Settles recognizer source.utf8ByteSize last gap back outcome) :
    ∃ listed rest, Listed source listed rest ∧ Gives source listed rest outcome := by
  have covers : last.fragment = hull none front := fragment_eq_hull reads
  have tracked : Tracked .empty front last.nesting := tracks.tracked reads
  have faultless : Faultless front := ⟨reads.wellFormed, tracked.leavesOpen.closable⟩
  have wellFormed (topLevel : last.nesting.isTopLevel) : WellFormedList front :=
    ⟨reads.wellFormed, tracked.balanced rfl topLevel⟩
  have endless := tracked.endless
  cases settles with
  | atEnd =>
    refine ⟨front, [], ⟨cut, endless, by simp⟩, ?_⟩
    cases ended : recognizer.atEnd last source.utf8ByteSize with
    | ok span =>
      obtain ⟨topLevel, rfl⟩ := atEnd_ok ended
      exact span_eq_listSpan cut covers ▸ .span (wellFormed topLevel)
    | error fault =>
      obtain ⟨opener, openers, inside, rfl⟩ :=
        Nesting.ensureClosed_eq_error.mp (ensureClosed_of_atEnd_error ended)
      have leaves := tracked.leavesOpen
      rw [inside] at leaves
      exact .fault (.unclosed rfl faultless leaves.innermostOpen)
  | @malformed token _ _ tag =>
    have goesOn : ¬ EndsList front token := fun ends => by simp [ends.1] at tag
    obtain ⟨more, rest, listed⟩ := Listed.exists_of_goesOn cut endless goesOn
    exact ⟨_, rest, listed, .fault (.malformed rfl faultless tag)⟩
  | @fault token _ _ _ _ stepped =>
    obtain ⟨failed, inside⟩ := track_of_step_error stepped
    have goesOn : ¬ EndsList front token := fun ends =>
      inside ⟨tracked.closesAll_iff.mp ends.2, ends.1⟩
    obtain ⟨more, rest, listed⟩ := Listed.exists_of_goesOn cut endless goesOn
    exact ⟨_, rest, listed, .fault (.of_track rfl faultless tracked failed)⟩
  | @done token pending result _ _ stepped =>
    obtain ⟨topLevel, brace, rfl⟩ := step_done stepped
    have ends : EndsList front token := ⟨brace, tracked.closesAll_iff.mpr topLevel⟩
    refine ⟨front, token :: pending, ⟨cut, endless, by simpa using ends⟩, ?_⟩
    exact span_eq_listSpan cut covers ▸ .span (wellFormed topLevel)

end Arguments

/-- A source has one list of arguments: its significant tokens up to the first
brace that closes none of the brackets opened before it. If the list is well
formed, it is extracted from its first token to its last, and otherwise the
first fault in it is found. No token behind it matters. -/
theorem extract_arguments_listed {source : String} (fits : source.utf8ByteSize ≤ maxOffset) :
    ∃ listed rest, (∀ front back, Listed source front back ↔ front = listed ∧ back = rest) ∧
      (WellFormedList listed →
        Construct.arguments.extract source = .ok (listSpan source listed rest)) ∧
      (¬ WellFormedList listed → ∃ fault,
        Construct.arguments.extract source = .error fault ∧ ListFault listed rest fault) := by
  obtain ⟨front, back, last, gap, cut, reads, settles⟩ :=
    Recognizer.reads_settles Arguments.recognizer source.utf8ByteSize Arguments.recognizer.start
      .closed (significantTokens source)
  obtain ⟨listed, rest, this, gives⟩ := Arguments.gives_of_settles cut reads settles
  refine ⟨listed, rest, fun front back => ⟨this.unique, ?_⟩, ?_⟩
  · rintro ⟨rfl, rfl⟩
    exact this
  · rw [Construct.extract, Arguments.blind.recognize_eq_run fits]
    generalize Arguments.recognizer.run source.utf8ByteSize Arguments.recognizer.start .closed
      (significantTokens source) = outcome at gives
    cases gives with
    | span wellFormed => exact ⟨fun _ => rfl, fun faulty => absurd wellFormed faulty⟩
    | fault first => exact ⟨fun wellFormed => absurd wellFormed first.not_wellFormed,
        fun _ => ⟨_, rfl, first⟩⟩

/-- The brace in the call is in the list, and the rune that is never closed is not. -/
theorem extract_arguments_listed_call :
    Listed "f(T\x7b\x7d) \x7d '" ((significantTokens "f(T\x7b\x7d) \x7d '").take 6)
        ((significantTokens "f(T\x7b\x7d) \x7d '").drop 6) ∧
      Construct.arguments.extract "f(T\x7b\x7d) \x7d '" = .ok ⟨0, 6⟩ := by
  have tags : ((significantTokens "f(T\x7b\x7d) \x7d '").take 6).map Token.tag =
      [.identifier, .opening .paren, .identifier, .opening .brace, .closing .brace,
        .closing .paren] := by decide +kernel
  have balanced : Balanced (((significantTokens "f(T\x7b\x7d) \x7d '").take 6).map Token.tag) := by
    rw [tags]
    exact .plain rfl (.group .paren (.plain rfl (.group .brace .nil .nil)) .nil)
  have listed : Listed "f(T\x7b\x7d) \x7d '" ((significantTokens "f(T\x7b\x7d) \x7d '").take 6)
      ((significantTokens "f(T\x7b\x7d) \x7d '").drop 6) := by
    refine ⟨(List.take_append_drop 6 _).symm, ?_, ?_⟩
    · exact (balanced.tracked .empty).endless
    · have brace : ((significantTokens "f(T\x7b\x7d) \x7d '").drop 6).head? =
          some ⟨.closing .brace, ⟨7, 8⟩, "\x7d"⟩ := by decide +kernel
      rw [brace]
      rintro token ⟨⟩
      exact ⟨rfl, balanced.closesAll⟩
  have fits : "f(T\x7b\x7d) \x7d '".utf8ByteSize ≤ maxOffset := by decide +kernel
  obtain ⟨_, _, unique, taken, -⟩ := extract_arguments_listed fits
  obtain ⟨rfl, rfl⟩ := (unique _ _).mp listed
  have span := taken ⟨by decide +kernel, balanced⟩
  exact ⟨listed, span.trans (by decide +kernel)⟩

end FragmentBounds
