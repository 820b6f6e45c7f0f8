import FragmentBounds.Proofs.Recognizer.Tracking
import FragmentBounds.Proofs.Recognizer.Spacing

/-! Machines fed with words, the significant tokens of a source with their gaps.
What a machine does with a sequence of words is put together from what it does
with the parts, and a machine that follows brackets takes balanced words. -/
namespace FragmentBounds

theorem spacedFrom_eq_nil {gap : Gap} {tokens : List Token} (none : spacedFrom gap tokens = []) :
    ∀ token ∈ tokens, token.isTrivia := by
  fun_induction spacedFrom gap tokens with
  | case1 => simp
  | case2 gap token pending trivia ih => simpa [trivia] using ih none
  | case3 | case4 => cases none

theorem map_token_spacedFrom (gap : Gap) {tokens : List Token}
    (sound : ∀ token ∈ tokens, token.tag.isMalformed = false) :
    (spacedFrom gap tokens).map Spaced.token = tokens.filter fun token => !token.isTrivia := by
  fun_induction spacedFrom gap tokens with
  | case1 => rfl
  | case2 gap token pending trivia ih =>
    rw [List.filter_cons_of_neg (by simp [trivia])]
    exact ih fun other member => sound other (List.mem_cons_of_mem _ member)
  | case3 gap token pending _ malformed => simp [sound token (by simp)] at malformed
  | case4 gap token pending visible _ ih =>
    rw [List.filter_cons_of_pos (by simpa using visible), List.map_cons]
    exact congrArg (token :: ·) (ih fun other member => sound other (List.mem_cons_of_mem _ member))

/-- Words from an opener of a family to the closer that matches it. -/
inductive Enclosed (bracket : Bracket) : List Spaced → Prop
  | mk {opener closer : Spaced} {inside : List Spaced} (opens : opener.token.tag = .opening bracket)
      (balanced : Balanced (inside.map (·.token.tag)))
      (closes : closer.token.tag = .closing bracket) :
      Enclosed bracket (opener :: (inside ++ [closer]))

theorem Enclosed.empty {bracket : Bracket} {opener closer : Spaced}
    (opens : opener.token.tag = .opening bracket) (closes : closer.token.tag = .closing bracket) :
    Enclosed bracket [opener, closer] :=
  @Enclosed.mk bracket opener closer [] opens .nil closes

namespace Recognizer

variable {σ α : Type} {machine : Recognizer σ α}

inductive Takes (machine : Recognizer σ α) : σ → List Spaced → σ → Prop
  | nil (state : σ) : Takes machine state [] state
  | cons {state next last : σ} {word : Spaced} {words : List Spaced}
      (stepped : machine.step state word.gap word.token = .ok (.more next))
      (more : Takes machine next words last) : Takes machine state (word :: words) last

namespace Takes

variable {state last final : σ} {words more : List Spaced} {word : Spaced}

theorem append (takes : Takes machine state words last) (next : Takes machine last more final) :
    Takes machine state (words ++ more) final := by
  induction takes with
  | nil => exact next
  | cons stepped _ ih => exact .cons stepped (ih next)

theorem last_step (takes : Takes machine state (words ++ [word]) last) :
    ∃ before, machine.step before word.gap word.token = .ok (.more last) := by
  induction words generalizing state with
  | nil =>
    cases takes with
    | cons stepped nothing =>
      cases nothing
      exact ⟨state, stepped⟩
  | cons first words ih =>
    cases takes with
    | cons _ more => exact ih more

end Takes

theorem reads_to_word (machine : Recognizer σ α) (state : σ) {gap : Gap} {tokens : List Token}
    {word : Spaced} {words : List Spaced} (cut : spacedFrom gap tokens = word :: words)
    (sound : ∀ token ∈ tokens, token.tag.isMalformed = false) :
    ∃ skipped back, tokens = skipped ++ word.token :: back ∧ word.token.isTrivia = false ∧
      Reads machine state gap skipped state word.gap ∧ spacedFrom .closed back = words := by
  fun_induction spacedFrom gap tokens with
  | case1 => cases cut
  | case2 gap token pending trivia ih =>
    obtain ⟨skipped, back, rfl, visible, reads, rest⟩ :=
      ih cut fun other member => sound other (List.mem_cons_of_mem _ member)
    exact ⟨token :: skipped, back, rfl, visible, .trivia trivia reads, rest⟩
  | case3 gap token pending _ malformed => simp [sound token (by simp)] at malformed
  | case4 gap token pending visible =>
    obtain ⟨rfl, rest⟩ := List.cons.inj cut
    exact ⟨[], pending, rfl, by simpa using visible, .nil state gap, rest⟩

theorem Takes.reads {state last : σ} {words rest : List Spaced}
    (takes : Takes machine state words last) {gap : Gap} {tokens : List Token}
    (cut : spacedFrom gap tokens = words ++ rest)
    (sound : ∀ token ∈ tokens, token.tag.isMalformed = false) :
    ∃ front back lastGap, tokens = front ++ back ∧ Reads machine state gap front last lastGap ∧
      spacedFrom lastGap back = rest := by
  induction takes generalizing gap tokens with
  | nil state => exact ⟨[], tokens, gap, rfl, .nil state gap, cut⟩
  | @cons state _ _ word _ stepped _ ih =>
    obtain ⟨skipped, behind, rfl, visible, skips, same⟩ := reads_to_word machine state cut sound
    obtain ⟨front, back, lastGap, rfl, reads, kept⟩ :=
      ih same fun token member => sound token (by simp [member])
    refine ⟨skipped ++ word.token :: front, back, lastGap, by simp, ?_, kept⟩
    exact skips.append (.step visible (sound word.token (by simp)) stepped reads)

theorem Takes.reads_all {state last : σ} {gap : Gap} {tokens : List Token}
    (takes : Takes machine state (spacedFrom gap tokens) last)
    (sound : ∀ token ∈ tokens, token.tag.isMalformed = false) :
    ∃ lastGap, Reads machine state gap tokens last lastGap := by
  obtain ⟨front, back, middle, rfl, reads, nothing⟩ :=
    takes.reads (List.append_nil _).symm sound
  obtain ⟨lastGap, skips⟩ := reads_trivia machine last middle (spacedFrom_eq_nil nothing)
  exact ⟨lastGap, reads.append skips⟩

theorem Takes.reads_before {state last : σ} {words : List Spaced}
    (takes : Takes machine state words last) {gap : Gap} {tokens : List Token} {token : Token}
    {mark : Spaced} (cut : spacedFrom gap (tokens ++ [token]) = words ++ [mark])
    (visible : token.isTrivia = false)
    (sound : ∀ other ∈ tokens ++ [token], other.tag.isMalformed = false) :
    mark.token = token ∧ Reads machine state gap tokens last mark.gap := by
  obtain ⟨front, back, middle, parts, reads, rest⟩ := takes.reads cut sound
  rw [parts] at sound
  obtain ⟨skipped, behind, rfl, -, skips, nothing⟩ :=
    reads_to_word machine last rest fun other member => sound other (List.mem_append_right _ member)
  rcases List.eq_nil_or_concat behind with rfl | ⟨more, final, rfl⟩
  · obtain ⟨rfl, same⟩ := List.append_inj' (parts.trans (List.append_assoc _ _ _).symm) rfl
    exact ⟨(List.singleton_inj.mp same).symm, reads.append skips⟩
  -- Behind the last word there is only trivia, but the last token is none.
  · have shape : tokens ++ [token] = (front ++ skipped ++ mark.token :: more) ++ [final] := by
      simp [parts]
    obtain ⟨-, same⟩ := List.append_inj' shape rfl
    have trivia := spacedFrom_eq_nil nothing final (by simp)
    rw [← List.singleton_inj.mp same, visible] at trivia
    cases trivia

/-- From wherever `P` holds, the machine takes the words to where `Q` holds. -/
def Leads (machine : Recognizer σ α) (P : σ → Prop) (words : List Spaced) (Q : σ → Prop) : Prop :=
  ∀ state, P state → ∃ last, Takes machine state words last ∧ Q last

section Leads

variable {P Q R : σ → Prop} {words more : List Spaced} {word : Spaced}

theorem Leads.nil (kept : ∀ state, P state → Q state) : machine.Leads P [] Q :=
  fun state holds => ⟨state, .nil state, kept state holds⟩

theorem Leads.append (first : machine.Leads P words Q) (second : machine.Leads Q more R) :
    machine.Leads P (words ++ more) R := by
  intro state holds
  obtain ⟨middle, taken, between⟩ := first state holds
  obtain ⟨last, also, final⟩ := second middle between
  exact ⟨last, taken.append also, final⟩

theorem Leads.cons (first : machine.Leads P [word] Q) (second : machine.Leads Q words R) :
    machine.Leads P (word :: words) R := first.append second

theorem Leads.mono (leads : machine.Leads P words Q) {P' Q' : σ → Prop}
    (before : ∀ state, P' state → P state) (after : ∀ state, Q state → Q' state) :
    machine.Leads P' words Q' := by
  intro state holds
  obtain ⟨last, taken, final⟩ := leads state (before state holds)
  exact ⟨last, taken, after last final⟩

theorem Leads.single (stepped : ∀ state, P state →
    ∃ next, machine.step state word.gap word.token = .ok (.more next) ∧ Q next) :
    machine.Leads P [word] Q := by
  intro state holds
  obtain ⟨next, taken, final⟩ := stepped state holds
  exact ⟨next, .cons taken (.nil next), final⟩

end Leads

variable {nesting : σ → Nesting} {P : σ → Prop}

section Follows

variable (follows : machine.Follows nesting)
  (keeps : ∀ state gap token next, (nesting state).isTopLevel = false → P state →
    machine.step state gap token = .ok (.more next) → P next)
include follows keeps

theorem Follows.takes {words : List Spaced} (balanced : Balanced (words.map (·.token.tag)))
    {state : σ} (nested : (nesting state).isTopLevel = false) (start : P state) :
    ∃ last, Takes machine state words last ∧ nesting last = nesting state ∧ P last := by
  -- The words follow the tags. The induction is on how the tags are balanced.
  generalize shape : words.map (·.token.tag) = tags at balanced
  induction balanced generalizing words state with
  | nil =>
    obtain rfl := List.map_eq_nil_iff.mp shape
    exact ⟨state, .nil state, rfl, start⟩
  | plain plain _ ih =>
    obtain ⟨word, words, rfl, rfl, same⟩ := List.map_eq_cons_iff.mp shape
    have tracked := (nesting state).track_plain plain
    obtain ⟨next, stepped, inner⟩ := follows state word.gap word.token _ nested tracked
    have again := keeps state word.gap word.token next nested start stepped
    obtain ⟨last, takes, kept, holds⟩ := ih (by rw [inner]; exact nested) again same
    exact ⟨last, .cons stepped takes, kept.trans inner, holds⟩
  | group bracket _ _ first second =>
    obtain ⟨opener, words, rfl, opens, same⟩ := List.map_eq_cons_iff.mp shape
    obtain ⟨inner, tail, rfl, within, after⟩ := List.map_eq_append_iff.mp same
    obtain ⟨closer, rest, rfl, closes, after⟩ := List.map_eq_cons_iff.mp after
    have tracked := (nesting state).track_opening opens
    obtain ⟨entered, stepped, pushed⟩ := follows state opener.gap opener.token _ nested tracked
    have again := keeps state opener.gap opener.token entered nested start stepped
    obtain ⟨reached, takes, kept, holds⟩ := first (by rw [pushed]; rfl) again within
    have deep : (nesting reached).isTopLevel = false := by rw [kept, pushed]; rfl
    have closed : (nesting reached).track closer.token = .ok (nesting state) := by
      rw [kept, pushed]
      exact (nesting state).track_closing opener.token.span.start closes
    obtain ⟨left, leaving, popped⟩ := follows reached closer.gap closer.token _ deep closed
    have still := keeps reached closer.gap closer.token left deep holds leaving
    obtain ⟨last, behind, restored, kept⟩ := second (by rw [popped]; exact nested) still after
    exact ⟨last, .cons stepped (takes.append (.cons leaving behind)), restored.trans popped, kept⟩

theorem Follows.reads {tokens : List Token} (balanced : Balanced (tokens.map Token.tag))
    (sound : ∀ token ∈ tokens, token.tag.isMalformed = false) {state : σ} (gap : Gap)
    (nested : (nesting state).isTopLevel = false) (start : P state) :
    ∃ last lastGap, Reads machine state gap tokens last lastGap ∧ nesting last = nesting state ∧
      P last := by
  have visible : Balanced ((spacedFrom gap tokens).map (·.token.tag)) := by
    have significant := (balanced.tracked .empty).significant.balanced rfl rfl
    rw [← map_token_spacedFrom gap sound] at significant
    simpa [Function.comp_def] using significant
  obtain ⟨last, takes, kept, holds⟩ := follows.takes keeps visible nested start
  obtain ⟨lastGap, reads⟩ := takes.reads_all sound
  exact ⟨last, lastGap, reads, kept, holds⟩

/-- A machine takes a pair of brackets with balanced words inside, if it takes
the opener. What holds behind the opener and inside holds behind the closer. -/
theorem Follows.leads_enclosed (tracks : machine.Tracks nesting) {before after : σ → Prop}
    {bracket : Bracket} {words : List Spaced} (enclosed : Enclosed bracket words)
    (outside : ∀ state, before state → (nesting state).isTopLevel)
    (opens : ∀ state, before state → ∀ word ∈ words.head?, word.token.tag = .opening bracket →
      ∃ entered, machine.step state word.gap word.token = .ok (.more entered) ∧ P entered)
    (closes : ∀ state gap token next, P next → (nesting next).isTopLevel →
      token.tag = .closing bracket → machine.step state gap token = .ok (.more next) → after next) :
    machine.Leads before words after := by
  intro state holds
  cases enclosed with
  | @mk opener closer inside opening balanced closing =>
    obtain ⟨entered, stepped, inner⟩ := opens state holds opener rfl opening
    have tracked := tracks.more stepped
    rw [Nesting.track_opening _ opening] at tracked
    have pushed := Except.ok.inj tracked
    have nested : (nesting entered).isTopLevel = false := by
      rw [← pushed]
      rfl
    obtain ⟨reached, takes, kept, still⟩ := follows.takes keeps balanced nested inner
    have closed : (nesting reached).track closer.token = .ok (nesting state) := by
      rw [kept, ← pushed]
      exact (nesting state).track_closing opener.token.span.start closing
    have deep : (nesting reached).isTopLevel = false := by
      rw [kept]
      exact nested
    obtain ⟨last, leaving, popped⟩ := follows reached closer.gap closer.token _ deep closed
    have left := keeps reached closer.gap closer.token last deep still leaving
    refine ⟨last, .cons stepped (takes.append (.cons leaving (.nil last))), ?_⟩
    exact closes reached closer.gap closer.token last left (by rw [popped]; exact outside state holds)
      closing leaving

end Follows

end Recognizer

end FragmentBounds
