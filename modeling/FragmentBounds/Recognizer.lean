import FragmentBounds.Token.Stream
import FragmentBounds.Bracket.Nesting

/-! Machines that read the significant tokens of a source until they know
where a fragment ends. A machine never sees trivia, only whether there was any;
it sees no token after the one that settled the answer. -/
namespace FragmentBounds

structure Gap where
  /-- There is trivia. -/
  spaced : Bool
  /-- A line ends. -/
  broken : Bool
  deriving DecidableEq, Repr

namespace Gap

def closed : Gap := ⟨false, false⟩

def extend (gap : Gap) (token : Token) : Gap := ⟨true, gap.broken || token.breaksLine⟩

end Gap

inductive Step (σ α : Type) where
  | more (state : σ)
  | done (result : α)
  deriving DecidableEq, Repr

structure Recognizer (σ α : Type) where
  start : σ
  step : σ → Gap → Token → Except Fault (Step σ α)
  /-- The answer when the source ends, given its size. -/
  atEnd : σ → Nat → Except Fault α

namespace Recognizer

variable {σ α : Type}

def run (machine : Recognizer σ α) (size : Nat) : σ → Gap → List Token → Except Fault α
  | state, _, [] => machine.atEnd state size
  | state, gap, token :: pending =>
    if token.isTrivia then machine.run size state (gap.extend token) pending
    else do
      match ← machine.step state gap (← token.check) with
      | .more state => machine.run size state .closed pending
      | .done result => return result

theorem run_trivia (machine : Recognizer σ α) (size : Nat) (state : σ) (gap : Gap)
    {token : Token} (pending : List Token) (trivia : token.isTrivia) :
    machine.run size state gap (token :: pending) =
      machine.run size state (gap.extend token) pending := by
  rw [run, if_pos trivia]

theorem run_malformed (machine : Recognizer σ α) (size : Nat) (state : σ) (gap : Gap)
    {token : Token} {kind : Malformation} (pending : List Token)
    (malformed : token.tag = .malformed kind) :
    machine.run size state gap (token :: pending) = .error (.malformed kind token.span.start) := by
  have faulty := Token.check_eq_error.mpr ⟨kind, malformed, rfl⟩
  rw [run, if_neg (by simp [Token.isTrivia, Tag.isTrivia, malformed]), faulty]
  rfl

theorem run_significant (machine : Recognizer σ α) (size : Nat) (state : σ) (gap : Gap)
    {token : Token} (pending : List Token) (significant : token.isTrivia = false)
    (wellFormed : token.tag.isMalformed = false) :
    machine.run size state gap (token :: pending) =
      machine.step state gap token >>= fun
        | .more state => machine.run size state .closed pending
        | .done result => .ok result := by
  have sound := Token.check_eq_ok.mpr ⟨wellFormed, rfl⟩
  rw [run, if_neg (by simp [significant]), sound]
  rfl

def recognize (machine : Recognizer σ α) (source : String) : Except Fault α := do
  let stream ← TokenStream.ofSource source
  machine.run stream.size machine.start .closed stream.pending

end Recognizer

def extendFragment (fragment : Option Span) (token : Token) : Option Span :=
  some (fragment.elim token.span (·.merge token.span))

end FragmentBounds
