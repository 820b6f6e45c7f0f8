import FragmentBounds.Recognizer

/-! Whether a switch header is a type switch: it holds `.(type)` with the
point at top level. The search ends with the first such guard. -/
namespace FragmentBounds.TypeSwitch

/-- How much of a guard the last tokens make up. -/
inductive Progress where
  | nothing
  | point
  | paren
  | keyword
  deriving DecidableEq, Repr

structure State where
  nesting : Nesting
  progress : Progress
  deriving DecidableEq, Repr

def Progress.next (progress : Progress) (topLevel : Bool) (token : Token) : Progress :=
  if token.tag = .dot ∧ topLevel then .point
  else if progress = .point ∧ token.tag = .opening .paren then .paren
  else if progress = .paren ∧ token.keyword? = some .kwType then .keyword
  else .nothing

def step (state : State) (_ : Gap) (token : Token) : Except Fault (Step State Bool) := do
  let nesting ← state.nesting.track token
  if state.progress = .keyword ∧ token.tag = .closing .paren then return .done true
  else return .more ⟨nesting, state.progress.next state.nesting.isTopLevel token⟩

def atEnd (state : State) (_ : Nat) : Except Fault Bool := do
  state.nesting.ensureClosed
  return false

def recognizer : Recognizer State Bool := ⟨⟨.empty, .nothing⟩, step, atEnd⟩

def isTypeSwitchGuard (header : String) : Except Fault Bool := recognizer.recognize header

end FragmentBounds.TypeSwitch
