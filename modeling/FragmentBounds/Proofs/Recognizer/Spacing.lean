import FragmentBounds.Proofs.Recognizer.Simulation

/-! Runs over the significant tokens alone. Trivia reaches a machine only as the
gap before a token, and nothing behind a malformed token reaches it at all. -/
namespace FragmentBounds

structure Spaced where
  gap : Gap
  token : Token
  deriving DecidableEq, Repr

def Spaced.spelling (spaced : Spaced) : Tag × String := (spaced.token.tag, spaced.token.text)

/-- The significant tokens with their gaps, through the first malformed one. Of
the first gap a part has been seen. -/
def spacedFrom (gap : Gap) : List Token → List Spaced
  | [] => []
  | token :: pending =>
    if token.isTrivia then spacedFrom (gap.extend token) pending
    else if token.tag.isMalformed then [⟨gap, token⟩]
    else ⟨gap, token⟩ :: spacedFrom .closed pending

theorem sublist_spacedFrom (gap : Gap) (tokens : List Token) :
    ((spacedFrom gap tokens).map Spaced.token).Sublist tokens := by
  fun_induction spacedFrom gap tokens with
  | case1 => exact .slnil
  | case2 gap token pending _ ih => exact ih.cons token
  | case3 gap token pending => exact (List.nil_sublist pending).cons_cons token
  | case4 gap token pending _ _ ih => exact ih.cons_cons token

namespace Recognizer

variable {σ α : Type}

def runSpaced (machine : Recognizer σ α) (size : Nat) : σ → List Spaced → Except Fault α
  | state, [] => machine.atEnd state size
  | state, ⟨gap, token⟩ :: pending => do
    match ← machine.step state gap (← token.check) with
    | .more next => machine.runSpaced size next pending
    | .done result => return result

theorem run_eq_runSpaced (machine : Recognizer σ α) (size : Nat) (state : σ) (gap : Gap)
    (tokens : List Token) :
    machine.run size state gap tokens = machine.runSpaced size state (spacedFrom gap tokens) := by
  fun_induction spacedFrom gap tokens generalizing state with
  | case1 => rfl
  | case2 gap token pending trivia ih => rw [run_trivia _ _ _ _ _ trivia, ih]
  | case3 gap token pending _ malformed =>
    obtain ⟨kind, tag⟩ := Tag.isMalformed_iff.mp malformed
    have faulty := Token.check_eq_error.mpr ⟨kind, tag, rfl⟩
    rw [run_malformed _ _ _ _ _ tag, runSpaced, faulty]
    rfl
  | case4 gap token pending significant wellFormed ih =>
    have significant : token.isTrivia = false := by simpa using significant
    have wellFormed : token.tag.isMalformed = false := by simpa using wellFormed
    have sound := Token.check_eq_ok.mpr ⟨wellFormed, rfl⟩
    rw [run_significant _ _ _ _ _ significant wellFormed, runSpaced, sound]
    change _ = machine.step state gap token >>= _
    cases machine.step state gap token with
    | error fault => rfl
    | ok outcome =>
      cases outcome with
      | more next => exact ih next
      | done result => rfl

variable {machine : Recognizer σ α} {S : Alignment → σ → σ → Prop} {R : Alignment → α → α → Prop}
  {alignment : Alignment} {size other : Nat} {state also : σ}

theorem Respects.runSpaced (respects : machine.Respects S R) (similar : Gap → Gap → Prop)
    (blind : ∀ state gap other token, similar gap other →
      machine.step state gap token = machine.step state other token)
    {front moved : List Spaced}
    (aligned : List.Forall₂ (fun left right => similar left.gap right.gap ∧
      left.token.Aligned alignment right.token) front moved)
    (same : S alignment state also)
    (ends : (∀ spaced ∈ front, spaced.token.tag.isMalformed = false) → alignment.starts size other) :
    Agree alignment.starts (R alignment) (machine.runSpaced size state front)
      (machine.runSpaced other also moved) := by
  induction aligned generalizing state also with
  | nil => exact respects.atEnd same (ends (by simp))
  | @cons left right front moved first _ ih =>
    obtain ⟨gap, token⟩ := left
    obtain ⟨opening, copy⟩ := right
    obtain ⟨close, matched⟩ := first
    rw [Recognizer.runSpaced, Recognizer.runSpaced]
    cases checked : token.check with
    | error fault =>
      obtain ⟨kind, tag, rfl⟩ := Token.check_eq_error.mp checked
      have faulty := Token.check_eq_error.mpr ⟨kind, matched.tag.trans tag, rfl⟩
      rw [faulty]
      exact .error (.malformed kind matched.start)
    | ok sound =>
      obtain ⟨wellFormed, rfl⟩ := Token.check_eq_ok.mp checked
      have copied := Token.check_eq_ok.mpr ⟨matched.tag ▸ wellFormed, rfl⟩
      rw [copied]
      change Agree _ _ (machine.step state gap _ >>= _) (machine.step also opening copy >>= _)
      rw [blind state gap opening _ close]
      apply (respects.step_aligned opening same matched).bind
      rintro _ _ (related | related)
      · exact ih related fun sound => ends (by simpa [wellFormed] using sound)
      · exact .ok related

end Recognizer

end FragmentBounds
