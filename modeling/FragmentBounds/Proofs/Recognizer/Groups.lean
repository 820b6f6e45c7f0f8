import FragmentBounds.Proofs.Recognizer.Moved
import FragmentBounds.Proofs.Recognizer.Words

/-! Two runs over sources that differ only inside one pair of brackets. Up to
the opener the runs are the same; if the machine forgets what it read inside as
soon as the pair is closed, they go on alike behind it. -/
namespace FragmentBounds

/-- Tokens from behind an opener up to the closer that matches it. -/
inductive Group (opener : Token) : List Token → Nat → Prop
  | mk {inner : List Token} {closer : Token} {stop : Nat} (bracket : Bracket)
      (opens : opener.tag = .opening bracket) (closes : closer.tag = .closing bracket)
      (balanced : Balanced (inner.map Token.tag))
      (sound : ∀ token ∈ inner, token.tag.isMalformed = false)
      (laid : Laid opener.span.start (opener :: (inner ++ [closer])) stop) :
      Group opener (inner ++ [closer]) stop

def Alignment.upTo (limit : Nat) : Alignment where
  starts x y := x ≤ limit ∧ y = x
  stops x y := x ≤ limit ∧ y = x
  starts_min := by omega
  stops_max := by omega

theorem hull_group {opener : Token} {inner : List Token} {closer : Token} {stop : Nat}
    (laid : Laid opener.span.start (opener :: (inner ++ [closer])) stop)
    (opens : opener.isTrivia = false) (closes : closer.isTrivia = false) {fragment : Option Span}
    (before : ∀ span, fragment = some span →
      span.start ≤ opener.span.start ∧ span.stop ≤ opener.span.start) :
    hull fragment (opener :: (inner ++ [closer])) =
      some ⟨(fragment.map Span.start).getD opener.span.start, stop⟩ := by
  cases fragment with
  | none =>
    refine hull_trimmed laid (by simp) (by simpa using opens) ?_
    rw [← List.cons_append, List.getLast?_concat]
    simpa using closes
  | some span =>
    obtain ⟨start, stop⟩ := before span rfl
    rw [← List.cons_append] at laid ⊢
    obtain ⟨middle, front, behind⟩ := laid_append.mp laid
    obtain ⟨last, same, -, high, -⟩ := hull_some front start stop
    have place := behind.start_eq
    have forward := front.le
    cases behind with
    | cons _ nonempty nothing =>
      have ended := nothing.stop_unique (.nil _)
      rw [hull_append, same, hull_cons_significant _ _ closes, hull_nil, ended]
      simp only [extendFragment, Option.elim_some, Span.merge, Option.map_some, Option.getD_some]
      rw [Nat.min_eq_left (by omega), Nat.max_eq_right (by omega)]

namespace Recognizer

variable {σ α : Type} {machine : Recognizer σ α}

theorem Follows.reads_group {nesting : σ → Nesting} {P : σ → Prop}
    (follows : machine.Follows nesting)
    (keeps : ∀ state gap token next, (nesting state).isTopLevel = false → P state →
      machine.step state gap token = .ok (.more next) → P next)
    {opener : Token} {rest : List Token} {stop : Nat} (group : Group opener rest stop)
    {opened : σ} {outside : Nesting} (entered : outside.track opener = .ok (nesting opened))
    (start : P opened) :
    ∃ last lastGap closer next, Reads machine opened .closed rest next .closed ∧
      (∀ bracket, opener.tag = .opening bracket → closer.tag = .closing bracket) ∧
      machine.step last lastGap closer = .ok (.more next) ∧ nesting next = outside ∧ P next := by
  obtain @⟨inner, closer, _, bracket, opens, closes, balanced, sound, -⟩ := group
  rw [outside.track_opening opens] at entered
  have pushed := Except.ok.inj entered
  have nested : (nesting opened).isTopLevel = false := by
    rw [← pushed]
    exact outside.isTopLevel_push bracket opener.span.start
  obtain ⟨last, lastGap, reads, kept, holds⟩ :=
    follows.reads keeps balanced sound .closed nested start
  have deep : (nesting last).isTopLevel = false := by rw [kept]; exact nested
  have closed : (nesting last).track closer = .ok outside := by
    rw [kept, ← pushed]
    exact outside.track_closing opener.span.start closes
  obtain ⟨next, stepped, popped⟩ := follows last lastGap closer outside deep closed
  have visible : closer.isTrivia = false := Token.isTrivia_of_tag closes rfl
  have wellFormed : closer.tag.isMalformed = false := by rw [closes]; rfl
  refine ⟨last, lastGap, closer, next, ?_, ?_, stepped, popped, ?_⟩
  · exact reads.append (.step visible wellFormed stepped (.nil next .closed))
  · intro also same
    rw [opens] at same
    cases same
    exact closes
  · exact keeps last lastGap closer next deep holds stepped

/-- Nothing that the machine reads in a group tells two sources apart behind it. -/
def Regroups (machine : Recognizer σ α) (S : Alignment → σ → σ → Prop) : Prop :=
  ∀ {alignment : Alignment} {state opened : σ} {gap : Gap} {opener : Token} {rest other : List Token}
    {stop also : Nat}, (Alignment.upTo opener.span.start).Within alignment →
      alignment.stops stop also → S (.upTo opener.span.start) state state →
      machine.step state gap opener = .ok (.more opened) →
      Group opener rest stop → Group opener other also →
        ∃ next final, Reads machine opened .closed rest next .closed ∧
          Reads machine opened .closed other final .closed ∧ S alignment next final

theorem Respects.self_of_reads {S : Alignment → σ → σ → Prop} {R : Alignment → α → α → Prop}
    (respects : machine.Respects S R) {alignment : Alignment} {state last : σ} {gap lastGap : Gap}
    {front : List Token} (reads : Reads machine state gap front last lastGap)
    (aligned : ∀ token ∈ front, token.Aligned alignment token) (same : S alignment state state) :
    S alignment last last := by
  refine reads.invariant (P := fun state => S alignment state state) same ?_
  intro state gap token next member same stepped
  have agreed := respects.step_aligned gap same (aligned token member)
  rw [stepped] at agreed
  obtain ⟨outcome, taken, related⟩ := agreed.exists_ok
  cases taken
  cases related with
  | more related => exact related

theorem Group.visible {opener : Token} {rest : List Token} {stop : Nat}
    (group : Group opener rest stop) :
    opener.isTrivia = false ∧ opener.tag.isMalformed = false ∧ ¬ opener.tag.endsFragment := by
  obtain ⟨bracket, opens, -, -, -, -⟩ := group
  rw [Token.isTrivia, opens]
  exact ⟨rfl, rfl, by rintro (same | same) <;> cases same⟩

theorem Respects.run_group {machine : Recognizer σ Span} {S : Alignment → σ → σ → Prop}
    (respects : machine.Respects S Span.Corresponds) (regroups : machine.Regroups S)
    {alignment : Alignment} {size other stop also : Nat} {front back moved : List Token}
    {opener : Token} {rest content : List Token}
    (laid : Laid 0 front opener.span.start)
    (within : (Alignment.upTo opener.span.start).Within alignment)
    (group : Group opener rest stop) (changed : Group opener content also)
    (behind : List.Forall₂ (Token.Aligned alignment) back moved)
    (stops : alignment.stops stop also) (ends : alignment.starts size other)
    (start : S (.upTo opener.span.start) machine.start machine.start) :
    Agree alignment.starts (Span.Corresponds alignment)
      (machine.run size machine.start .closed (front ++ opener :: (rest ++ back)))
      (machine.run other machine.start .closed (front ++ opener :: (content ++ moved))) := by
  have aligned : ∀ token ∈ front, token.Aligned (.upTo opener.span.start) token := by
    intro token member
    have bounds := laid.bounds member
    exact ⟨⟨rfl, rfl, by change _ ∧ _; omega⟩, by change _ ∧ _; omega⟩
  have weaken {result : Except Fault Span} (same : Agree (Alignment.upTo opener.span.start).starts
      (Span.Corresponds (.upTo opener.span.start)) result result) :
      Agree alignment.starts (Span.Corresponds alignment) result result :=
    same.mono within.starts fun _ _ matched => matched.mono within
  obtain ⟨visible, sound, going⟩ := Group.visible group
  have itself := List.forall₂_same.mpr aligned
  obtain ⟨early, late, last, lastGap, rfl, reads, settles⟩ :=
    reads_settles machine opener.span.start machine.start .closed front
  cases late with
  | cons token pending =>
    -- Both runs are over before the group begins.
    have agreed := respects.run .closed itself start ⟨Nat.le_refl _, rfl⟩
    rw [List.append_assoc, List.append_assoc, reads.run_append, reads.run_append,
      (settles.append size _).run_eq, (settles.append other _).run_eq]
    exact weaken agreed
  | nil =>
    rw [List.append_nil] at aligned ⊢
    have same := respects.self_of_reads reads aligned start
    rw [reads.run_append, reads.run_append, run_significant _ _ _ _ _ visible sound,
      run_significant _ _ _ _ _ visible sound]
    have token : opener.Matches (.upTo opener.span.start) opener :=
      ⟨rfl, rfl, Nat.le_refl _, rfl⟩
    have agreed := respects.step lastGap (Alignment.within_loose _) same token trivial
      fun ending => absurd ending going
    cases stepped : machine.step last lastGap opener with
    | error fault =>
      rw [stepped] at agreed
      cases agreed with
      | error matched => exact .error (matched.mono within.starts)
    | ok outcome =>
      rw [stepped] at agreed
      cases outcome with
      | done result =>
        cases agreed with
        | ok related =>
          cases related with
          | done related => exact .ok (related.mono within)
      | more opened =>
        obtain ⟨next, final, first, second, related⟩ :=
          regroups within stops same stepped group changed
        change Agree _ _ (machine.run size opened .closed (rest ++ back))
          (machine.run other opened .closed (content ++ moved))
        rw [first.run_append, second.run_append]
        exact respects.run .closed behind related ends

end Recognizer

end FragmentBounds
