import FragmentBounds.Proofs.Lexeme.Resuming
import FragmentBounds.Recognizer

/-! Loops that ask a token stream for one token after another. To a loop the end
of the source is a token like any other: the stream gives it whenever it is asked
again, and only what the loop makes of it can keep the loop from asking for ever. -/
namespace FragmentBounds

def TokenStream.Gives (stream : TokenStream) (item : Except Fault Token) (after : TokenStream) :
    Prop :=
  stream.next = (item, after)

/-- A loop with what it makes of a token that is no trivia, the end of the source
among them. -/
structure TokenLoop (σ α : Type) where
  start : σ
  turn : σ → Gap → Token → Except Fault (Step σ α)

namespace TokenLoop

variable {σ α : Type}

def round (loop : TokenLoop σ α) (state : σ × Gap) :
    Except Fault Token → Step (σ × Gap) (Except Fault α)
  | .error fault => .done (.error fault)
  | .ok token =>
    if token.isTrivia then .more (state.1, state.2.extend token)
    else
      match loop.turn state.1 state.2 token with
      | .error fault => .done (.error fault)
      | .ok (.done result) => .done (.ok result)
      | .ok (.more next) => .more (next, .closed)

inductive Ends (loop : TokenLoop σ α) : σ × Gap → List (Except Fault Token) → Except Fault α → Prop
  | done {state : σ × Gap} {item : Except Fault Token} {outcome : Except Fault α}
      (ends : loop.round state item = .done outcome) : Ends loop state [item] outcome
  | more {state next : σ × Gap} {item : Except Fault Token} {items : List (Except Fault Token)}
      {outcome : Except Fault α} (goes : loop.round state item = .more next)
      (rest : Ends loop next items outcome) : Ends loop state (item :: items) outcome

/-- From its start the loop asks for these items and ends. -/
def Runs (loop : TokenLoop σ α) (items : List (Except Fault Token)) (outcome : Except Fault α) :
    Prop :=
  loop.Ends (loop.start, .closed) items outcome

/-- The loop does what the machine does with every token, and at the end of the
source it comes to the answer of the machine. -/
structure Unrolls (loop : TokenLoop σ α) (machine : Recognizer σ α) : Prop where
  start : loop.start = machine.start
  turn : ∀ state gap token, token.tag ≠ .endOfInput →
    loop.turn state gap token = machine.step state gap token
  atEnd : ∀ state gap size,
    loop.turn state gap (.endOfInput size) = Step.done <$> machine.atEnd state size

variable {loop : TokenLoop σ α} {machine : Recognizer σ α} {stream after last : TokenStream}

theorem calls_gives {items : List (Except Fault Token)}
    (front : items <+: stream.pending.map Token.check ++ [.ok (.endOfInput stream.size)]) :
    Calls TokenStream.Gives stream items
      { stream with pending := stream.pending.drop items.length } := by
  obtain ⟨source, pending, finished⟩ := stream
  dsimp only [TokenStream.size] at front ⊢
  induction pending generalizing items with
  | nil =>
    rcases List.prefix_cons_iff.mp front with rfl | ⟨items, rfl, none⟩
    · exact .nil _
    · obtain rfl := List.prefix_nil.mp none
      exact .cons rfl (.nil _)
  | cons token pending ih =>
    rcases List.prefix_cons_iff.mp front with rfl | ⟨items, rfl, more⟩
    · exact .nil _
    · exact .cons rfl (ih more)

theorem Ends.unique {state : σ × Gap} {items others : List (Except Fault Token)}
    {outcome other : Except Fault α} (ends : loop.Ends state items outcome)
    (calls : Calls TokenStream.Gives stream items after) (also : loop.Ends state others other)
    (asks : Calls TokenStream.Gives stream others last) : others = items ∧ other = outcome := by
  induction ends generalizing stream others with
  | done ends =>
    obtain _ | ⟨first, -⟩ := calls
    cases also with
    | done same =>
      obtain _ | ⟨given, -⟩ := asks
      obtain ⟨rfl, -⟩ := Prod.mk.inj (first.symm.trans given)
      cases ends.symm.trans same
      exact ⟨rfl, rfl⟩
    | more goes =>
      obtain _ | ⟨given, -⟩ := asks
      obtain ⟨rfl, -⟩ := Prod.mk.inj (first.symm.trans given)
      cases ends.symm.trans goes
  | more goes _ ih =>
    obtain _ | ⟨first, calls⟩ := calls
    cases also with
    | done ends =>
      obtain _ | ⟨given, -⟩ := asks
      obtain ⟨rfl, -⟩ := Prod.mk.inj (first.symm.trans given)
      cases ends.symm.trans goes
    | more same rest =>
      obtain _ | ⟨given, asks⟩ := asks
      obtain ⟨rfl, rfl⟩ := Prod.mk.inj (first.symm.trans given)
      cases goes.symm.trans same
      obtain ⟨rfl, rfl⟩ := ih calls rest asks
      exact ⟨rfl, rfl⟩

theorem Unrolls.round_endOfInput (unrolls : loop.Unrolls machine) (state : σ) (gap : Gap) (size : Nat) :
    loop.round (state, gap) (.ok (.endOfInput size)) = .done (machine.atEnd state size) := by
  have visible : (Token.endOfInput size).isTrivia = false := rfl
  simp only [round, visible, Bool.false_eq_true, if_false, unrolls.atEnd]
  cases machine.atEnd state size <;> rfl

theorem Unrolls.run_cons (unrolls : loop.Unrolls machine) (size : Nat) (state : σ) (gap : Gap)
    {token : Token} (inside : token.tag ≠ .endOfInput) (pending : List Token) :
    machine.run size state gap (token :: pending) =
      match loop.round (state, gap) token.check with
      | .done outcome => outcome
      | .more next => machine.run size next.1 next.2 pending := by
  cases trivia : token.isTrivia with
  | true =>
    have sound := Token.check_eq_ok.mpr ⟨Tag.isMalformed_of_isTrivia trivia, rfl⟩
    rw [sound, round, if_pos trivia, machine.run_trivia size state gap pending trivia]
  | false =>
    cases checked : token.check with
    | error fault =>
      obtain ⟨kind, malformed, rfl⟩ := Token.check_eq_error.mp checked
      rw [machine.run_malformed size state gap pending malformed]
      rfl
    | ok same =>
      obtain ⟨sound, rfl⟩ := Token.check_eq_ok.mp checked
      rw [machine.run_significant size state gap pending trivia sound, round, if_neg (by simp [trivia]),
        unrolls.turn state gap _ inside]
      rcases machine.step state gap _ with _ | _ | _ <;> rfl

/-- A loop that is the machine unrolled asks for no more than the tokens of the
source and its end, and comes to what the machine comes to. -/
theorem Unrolls.exists_ends (unrolls : loop.Unrolls machine) (size : Nat) {pending : List Token}
    (inside : ∀ token ∈ pending, token.tag ≠ .endOfInput) (state : σ × Gap) :
    ∃ items, items <+: pending.map Token.check ++ [.ok (.endOfInput size)] ∧
      loop.Ends state items (machine.run size state.1 state.2 pending) := by
  induction pending generalizing state with
  | nil => exact ⟨_, List.prefix_rfl, .done (unrolls.round_endOfInput state.1 state.2 size)⟩
  | cons token pending ih =>
    rw [unrolls.run_cons size state.1 state.2 (inside token List.mem_cons_self)]
    cases went : loop.round state token.check with
    | done outcome =>
      exact ⟨[token.check], List.cons_prefix_cons.mpr ⟨rfl, List.nil_prefix⟩, .done went⟩
    | more next =>
      obtain ⟨items, front, ends⟩ := ih (fun other member => inside other (.tail _ member)) next
      exact ⟨token.check :: items, List.cons_prefix_cons.mpr ⟨rfl, front⟩, .more went ends⟩

end TokenLoop

end FragmentBounds
