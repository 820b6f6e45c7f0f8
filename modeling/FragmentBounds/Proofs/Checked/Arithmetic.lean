import FragmentBounds.Cursor
import FragmentBounds.Recognizer

/-! Arithmetic and loops that give up where a machine with offsets of 32 bits
would: where a number leaves their range, or where a loop would never end. -/
namespace FragmentBounds.Checked

inductive Panic where
  | overflow
  | underflow
  | reversed (slice : ReversedSlice)
  /-- A loop came round without having moved on in the source. -/
  | stuck
  deriving DecidableEq, Repr

def add (left right : Nat) : Except Panic Nat :=
  if maxOffset < left + right then .error .overflow else .ok (left + right)

def sub (left right : Nat) : Except Panic Nat :=
  if left < right then .error .underflow else .ok (left - right)

def moved (cursor : Cursor) : Except Panic Cursor :=
  if maxOffset < cursor.pos then .error .overflow else .ok cursor

/-- Goes through the body again from where it left the cursor, with what it
handed on, until it has a result. -/
def loop {σ α : Type} (body : Cursor → σ → Except Panic (Step (Cursor × σ) α)) (cursor : Cursor)
    (state : σ) : Except Panic α := do
  match ← body cursor state with
  | .done result => return result
  | .more (next, state) =>
    if next.size - next.pos < cursor.size - cursor.pos then loop body next state
    else throw .stuck
termination_by cursor.size - cursor.pos

/-- The run is not cut short, and its result satisfies `P`. -/
def Returns {α : Type} (run : Except Panic α) (P : α → Prop) : Prop :=
  ∃ result, run = .ok result ∧ P result

variable {α β : Type} {P : α → Prop} {Q : β → Prop}

theorem Returns.pure {result : α} (holds : P result) : Returns (Pure.pure result) P :=
  ⟨result, rfl, holds⟩

theorem Returns.bind {first : Except Panic α} {next : α → Except Panic β}
    (returns : Returns first P) (more : ∀ result, P result → Returns (next result) Q) :
    Returns (first >>= next) Q := by
  obtain ⟨result, rfl, holds⟩ := returns
  exact more result holds

theorem Returns.map {first : Except Panic α} {f : α → β} (returns : Returns first P)
    (more : ∀ result, P result → Q (f result)) : Returns (f <$> first) Q := by
  obtain ⟨result, rfl, holds⟩ := returns
  exact ⟨f result, rfl, more result holds⟩

theorem Returns.imp {first : Except Panic α} {P' : α → Prop} (returns : Returns first P)
    (more : ∀ result, P result → P' result) : Returns first P' := by
  obtain ⟨result, same, holds⟩ := returns
  exact ⟨result, same, more result holds⟩

theorem Returns.eq_ok {run : Except Panic α} {result : α} (returns : Returns run (· = result)) :
    run = .ok result := by
  obtain ⟨_, same, rfl⟩ := returns
  exact same

section Rules

variable {next : Nat → Except Panic α}

theorem Returns.add {left right : Nat} (fits : left + right ≤ maxOffset)
    (returns : Returns (next (left + right)) P) : Returns (Checked.add left right >>= next) P := by
  rw [Checked.add, if_neg (Nat.not_lt.mpr fits)]
  exact returns

theorem Returns.sub {left right : Nat} (le : right ≤ left) (returns : Returns (next (left - right)) P) :
    Returns (Checked.sub left right >>= next) P := by
  rw [Checked.sub, if_neg (Nat.not_lt.mpr le)]
  exact returns

end Rules

/-- A round ends the loop with what it is for, or keeps what holds of the cursor
and of what is handed on, and moves on. -/
def Rounds {σ : Type} (I : Cursor → σ → Prop) (P : α → Prop) (cursor : Cursor) :
    Step (Cursor × σ) α → Prop
  | .done result => P result
  | .more (next, state) => I next state ∧ next.size - next.pos < cursor.size - cursor.pos

theorem returns_loop {σ : Type} {body : Cursor → σ → Except Panic (Step (Cursor × σ) α)}
    {I : Cursor → σ → Prop}
    (round : ∀ cursor state, I cursor state → Returns (body cursor state) (Rounds I P cursor))
    {cursor : Cursor} {state : σ} (start : I cursor state) : Returns (loop body cursor state) P := by
  generalize same : cursor.size - cursor.pos = left
  induction left using Nat.strongRecOn generalizing cursor state with
  | ind left ih =>
    rw [loop]
    apply (round cursor state start).bind
    rintro (⟨next, state⟩ | result) holds
    · obtain ⟨kept, less⟩ := holds
      simp only [if_pos less]
      exact ih _ (same ▸ less) kept rfl
    · exact .pure holds

end FragmentBounds.Checked
