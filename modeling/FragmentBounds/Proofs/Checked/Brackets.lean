import FragmentBounds.Proofs.Bracket.Tracked
import FragmentBounds.Proofs.Checked.Depths

/-! Brackets opened and closed in place. A call updates the openers and then the
depths, which are counted in 32 bits, and a call that fails gives up between
looking at the openers and updating them. -/
namespace FragmentBounds.Checked

def push (bracket : Bracket) (offset : Nat) (nesting : Nesting) : Except Panic Nesting := do
  let nesting : Nesting := { nesting with openers := ⟨bracket, offset⟩ :: nesting.openers }
  let deeper ← add (nesting.depthOf bracket) 1
  return { nesting with depths := nesting.depths.modify bracket fun _ => deeper }

def close (bracket : Bracket) (offset : Nat) (nesting : Nesting) :
    Except Panic (Except Fault Unit × Nesting) :=
  match nesting.innermost? with
  | none => return (.error (.bracket (.unmatched bracket) offset), nesting)
  | some opener =>
    if opener.bracket ≠ bracket then
      return (.error (.bracket (.mismatched opener.bracket opener.offset bracket) offset), nesting)
    else do
      let nesting : Nesting := { nesting with openers := nesting.openers.tail }
      let shallower ← sub (nesting.depthOf bracket) 1
      return (.ok (), { nesting with depths := nesting.depths.modify bracket fun _ => shallower })

def track (token : Token) (nesting : Nesting) : Except Panic (Except Fault Bool × Nesting) :=
  match token.tag.opens? with
  | some bracket => do return (.ok true, ← push bracket token.span.start nesting)
  | none =>
    match token.tag.closes? with
    | some bracket => do
      let (outcome, nesting) ← close bracket token.span.start nesting
      return (outcome.map fun _ => true, nesting)
    | none => return (.ok false, nesting)

inductive Call where
  | push (bracket : Bracket) (offset : Nat)
  | close (bracket : Bracket) (offset : Nat)
  | track (token : Token)
  deriving DecidableEq, Repr

namespace Call

def tag : Call → Tag
  | .push bracket _ => .opening bracket
  | .close bracket _ => .closing bracket
  | .track token => token.tag

def offset : Call → Nat
  | .push _ offset => offset
  | .close _ offset => offset
  | .track token => token.span.start

/-- A token that is tracked to the same effect. -/
def token (call : Call) : Token := ⟨call.tag, .point call.offset, ""⟩

def run : Call → Nesting → Except Panic (Except Fault Unit × Nesting)
  | .push bracket offset, nesting => do return (.ok (), ← Checked.push bracket offset nesting)
  | .close bracket offset, nesting => Checked.close bracket offset nesting
  | .track token, nesting => do
    let (outcome, nesting) ← Checked.track token nesting
    return (outcome.map fun _ => (), nesting)

def opens (call : Call) : Bool := call.tag.opens?.isSome

def closes (call : Call) : Bool := call.tag.closes?.isSome

def runAll : List Call → Nesting → Except Panic (List (Except Fault Unit) × Nesting)
  | [], nesting => return ([], nesting)
  | call :: calls, nesting => do
    let (outcome, nesting) ← call.run nesting
    let (outcomes, nesting) ← runAll calls nesting
    return (outcome :: outcomes, nesting)

end Call

/-- Nestings that calls lead to, with fewer than 2³² brackets open at a time. -/
inductive Reached : Nesting → Prop
  | empty : Reached .empty
  | call {nesting next : Nesting} {call : Call} {outcome : Except Fault Unit}
      (reached : Reached nesting) (ran : call.run nesting = .ok (outcome, next))
      (few : next.openers.length ≤ maxOffset) : Reached next

/-- The calls, if none fails, never lead to 2³² open brackets. -/
def Spares (nesting : Nesting) (calls : List Call) : Prop :=
  ∀ front, front <+: calls →
    nesting.openers.length + front.countP Call.opens ≤ maxOffset + front.countP Call.closes

variable {nesting next : Nesting} {call : Call}

theorem Tally.exact (counts : ∀ bracket, nesting.depthOf bracket =
    nesting.openers.countP (·.bracket = bracket)) : Tally nesting nesting.openers.length :=
  ⟨counts, Nat.le_refl _⟩

/-- The outcome of a call that leaves the nesting alone if it fails. -/
def settled (nesting : Nesting) : Except Fault Nesting → Except Fault Unit × Nesting
  | .ok next => (.ok (), next)
  | .error fault => (.error fault, nesting)

theorem push_eq (bracket : Bracket) (offset : Nat) (nesting : Nesting) :
    push bracket offset nesting = if nesting.depthOf bracket < maxOffset
      then .ok (nesting.push bracket offset) else .error .overflow := by
  split
  · next fits =>
    apply Returns.eq_ok
    refine .add fits ?_
    apply Returns.pure
    cases bracket <;> rfl
  · next full =>
    have large : maxOffset < nesting.depthOf bracket + 1 := by omega
    change add (nesting.depthOf bracket) 1 >>= _ = _
    rw [add, if_pos large]
    rfl

theorem close_eq (tally : Tally nesting maxOffset) (bracket : Bracket) (offset : Nat) :
    close bracket offset nesting = .ok (settled nesting (nesting.close bracket offset)) := by
  cases inside : nesting.openers with
  | nil =>
    simp only [close, Nesting.innermost?, Nesting.close, inside, List.head?_nil]
    rfl
  | cons opener openers =>
    simp only [close, Nesting.innermost?, Nesting.close, inside, List.head?_cons]
    by_cases same : opener.bracket = bracket
    · subst same
      rw [if_neg (by simp), if_pos rfl]
      apply Returns.eq_ok
      refine .sub (tally.innermost inside) ?_
      apply Returns.pure
      cases opener.bracket <;> rfl
    · rw [if_pos same, if_neg same]
      rfl

namespace Call

theorem opens_iff : call.opens ↔ ∃ bracket, call.tag = .opening bracket := by
  unfold opens
  cases call.tag <;> simp [Tag.opens?]

theorem run_opening {bracket : Bracket} (opening : call.tag = .opening bracket) :
    call.run nesting = if nesting.depthOf bracket < maxOffset
      then .ok (.ok (), nesting.push bracket call.offset) else .error .overflow := by
  cases call with
  | push =>
    cases opening
    rw [run, push_eq]
    split <;> rfl
  | close => cases opening
  | track token =>
    have opening : token.tag = .opening bracket := opening
    simp only [run, Checked.track, opening, Tag.opens?, push_eq]
    split <;> rfl

theorem run_other (tally : Tally nesting maxOffset) (other : call.opens = false) :
    call.run nesting = .ok (settled nesting (nesting.track call.token)) := by
  cases call with
  | push => cases other
  | close bracket offset => exact close_eq tally bracket offset
  | track token =>
    obtain ⟨tag, span, text⟩ := token
    cases tag with
    | opening => cases other
    | closing bracket =>
      simp only [run, Checked.track, Tag.opens?, Tag.closes?, close_eq tally bracket]
      change _ = Except.ok (settled nesting (nesting.close bracket span.start))
      cases nesting.close bracket span.start <;> rfl
    | _ => rfl

/-- A call that does not panic does to the nesting what tracking its token does. -/
theorem eq_settled (tally : Tally nesting maxOffset) {result : Except Fault Unit × Nesting}
    (ran : call.run nesting = .ok result) :
    result = settled nesting (nesting.track call.token) := by
  cases opens : call.opens with
  | true =>
    obtain ⟨bracket, opening⟩ := opens_iff.mp opens
    rw [run_opening opening] at ran
    split at ran
    · cases ran
      have tracked : nesting.track call.token = _ := nesting.track_opening opening
      rw [tracked]
      rfl
    · cases ran
  | false =>
    rw [run_other tally opens] at ran
    exact (Except.ok.inj ran).symm

theorem panics (tally : Tally nesting maxOffset) {panic : Panic}
    (ran : call.run nesting = .error panic) :
    panic = .overflow ∧ call.opens ∧ nesting.openers.length = maxOffset := by
  cases opens : call.opens with
  | true =>
    obtain ⟨bracket, opening⟩ := opens_iff.mp opens
    rw [run_opening opening] at ran
    split at ran
    · cases ran
    · next full =>
      have few := tally.few
      have deep := (Tally.exact tally.counts).depth_le bracket
      exact ⟨(Except.error.inj ran).symm, rfl, by omega⟩
  | false =>
    rw [run_other tally opens] at ran
    cases ran

theorem run_eq (tally : Tally nesting maxOffset)
    (fits : call.opens → nesting.openers.length < maxOffset) :
    call.run nesting = .ok (settled nesting (nesting.track call.token)) := by
  cases ran : call.run nesting with
  | ok result => rw [eq_settled tally ran]
  | error panic =>
    obtain ⟨-, opens, full⟩ := panics tally ran
    exact absurd (fits opens) (by omega)

end Call

section Reached

theorem settled_eq_ok {outcome : Except Fault Nesting} (ended : settled nesting outcome = (.ok (), next)) :
    outcome = .ok next := by
  cases outcome with
  | ok => cases ended; rfl
  | error => cases ended

theorem settled_eq_error {outcome : Except Fault Nesting} {fault : Fault}
    (ended : settled nesting outcome = (.error fault, next)) : next = nesting := by
  cases outcome with
  | ok => cases ended
  | error => cases ended; rfl

theorem Tally.run (tally : Tally nesting maxOffset) {outcome : Except Fault Unit}
    (ran : call.run nesting = .ok (outcome, next)) (few : next.openers.length ≤ maxOffset) :
    Tally next maxOffset := by
  have ended := (Call.eq_settled tally ran).symm
  cases outcome with
  | ok =>
    have tracked := settled_eq_ok ended
    exact ⟨((Tally.exact tally.counts).track (Nat.lt_succ_self _) tracked).counts, few⟩
  | error =>
    rw [settled_eq_error ended]
    exact tally

theorem Reached.tally (reached : Reached nesting) : Tally nesting maxOffset := by
  induction reached with
  | empty => exact Tally.empty.mono (Nat.zero_le _)
  | call _ ran few ih => exact ih.run ran few

/-- The depths of a nesting are those of its openers, and every way to ask
whether all brackets are closed has one answer. -/
structure Represents (nesting : Nesting) : Prop where
  depthOf : ∀ bracket, nesting.depthOf bracket = nesting.openers.countP (·.bracket = bracket)
  depth : nesting.depth = nesting.depthOf .paren + nesting.depthOf .square + nesting.depthOf .brace
  zero : nesting.isTopLevel ↔ ∀ bracket, nesting.depthOf bracket = 0
  innermost : nesting.isTopLevel ↔ nesting.innermost? = none
  closed : nesting.isTopLevel ↔ nesting.ensureClosed = .ok ()

private theorem length_eq_sum (openers : List Opener) : openers.length =
    openers.countP (·.bracket = .paren) + openers.countP (·.bracket = .square) +
      openers.countP (·.bracket = .brace) := by
  induction openers with
  | nil => simp
  | cons opener openers ih =>
    simp only [List.length_cons, List.countP_cons, ih]
    cases opener.bracket <;> simp <;> omega

theorem Tally.represents (tally : Tally nesting maxOffset) : Represents nesting := by
  have sum : nesting.depth =
      nesting.depthOf .paren + nesting.depthOf .square + nesting.depthOf .brace := by
    simp only [tally.counts]
    exact length_eq_sum nesting.openers
  refine ⟨tally.counts, sum, ?_, ?_, (Nesting.ensureClosed_eq_ok nesting).symm⟩
  · rw [Nesting.isTopLevel_iff, ← List.length_eq_zero_iff]
    constructor
    · intro empty bracket
      have few := (Tally.exact tally.counts).depth_le bracket
      omega
    · intro zero
      rw [zero, zero, zero] at sum
      exact sum
  · rw [Nesting.isTopLevel_iff, Nesting.innermost?, List.head?_eq_none_iff]

end Reached

section Restoring

variable {last : Nesting} {calls : List Call}

theorem length_of_track {call : Call} (tracked : nesting.track call.token = .ok next) :
    next.openers.length + (if call.closes then 1 else 0) =
      nesting.openers.length + (if call.opens then 1 else 0) := by
  have named : call.token.tag = call.tag := rfl
  unfold Nesting.track at tracked
  rw [named] at tracked
  cases tag : call.tag with
  | opening bracket =>
    rw [tag] at tracked
    cases tracked
    simp [Call.opens, Call.closes, tag, Tag.opens?, Tag.closes?, Nesting.push]
  | closing bracket =>
    rw [tag] at tracked
    obtain ⟨opener, openers, inside, -, rfl⟩ := Nesting.close_eq_ok.mp tracked
    simp [Call.opens, Call.closes, tag, Tag.opens?, Tag.closes?, inside]
  | _ =>
    rw [tag] at tracked
    cases tracked
    simp [Call.opens, Call.closes, tag, Tag.opens?, Tag.closes?]

theorem Spares.tail (spares : Spares nesting (call :: calls))
    (tracked : nesting.track call.token = .ok next) : Spares next calls := by
  intro front within
  have bound := spares (call :: front) (List.cons_prefix_cons.mpr ⟨rfl, within⟩)
  have length := length_of_track tracked
  rw [List.countP_cons, List.countP_cons] at bound
  omega

theorem runAll_of_tracked (tally : Tally nesting maxOffset) (spares : Spares nesting calls)
    (tracked : Tracked nesting (calls.map Call.token) last) :
    Call.runAll calls nesting = .ok (calls.map fun _ => .ok (), last) := by
  induction calls generalizing nesting with
  | nil => cases tracked; rfl
  | cons call calls ih =>
    cases tracked with
    | @cons _ inner _ _ _ tracked more =>
      have fits (opens : call.opens) : nesting.openers.length < maxOffset := by
        have closes : call.closes = false := by
          obtain ⟨bracket, opening⟩ := Call.opens_iff.mp opens
          rw [Call.closes, opening]
          rfl
        have bound := spares [call] (List.cons_prefix_cons.mpr ⟨rfl, List.nil_prefix⟩)
        simp only [List.countP_singleton, opens, closes, if_true, Bool.false_eq_true, if_false] at bound
        omega
      have ran : call.run nesting = .ok (.ok (), inner) := by
        rw [Call.run_eq tally fits, tracked]
        rfl
      have spared := spares.tail tracked
      have few : inner.openers.length ≤ maxOffset := by simpa using spared [] List.nil_prefix
      rw [Call.runAll, ran]
      change Call.runAll calls inner >>= _ = _
      rw [ih (tally.run ran few) spared more]
      rfl

end Restoring

/-- In every nesting that calls lead to, the depths agree with the openers, calls
do what tracking does, and no count falls below zero. A call that fails changes
nothing, and balanced calls succeed and leave the nesting as it was. -/
theorem reached_represents {nesting : Nesting} (reached : Reached nesting) :
    Represents nesting ∧
    (∀ call : Call, (call.opens → nesting.openers.length < maxOffset) →
      call.run nesting = .ok (settled nesting (nesting.track call.token))) ∧
    (∀ call : Call, call.run nesting ≠ .error .underflow) ∧
    (∀ call : Call, ∀ fault next, call.run nesting = .ok (.error fault, next) → next = nesting) ∧
    ∀ calls, Balanced (calls.map Call.tag) → Spares nesting calls →
      Call.runAll calls nesting = .ok (calls.map fun _ => .ok (), nesting) := by
  have tally := reached.tally
  refine ⟨tally.represents, fun _ => Call.run_eq tally, ?_, ?_, ?_⟩
  · intro call ran
    cases (Call.panics tally ran).1
  · intro call fault next ran
    exact settled_eq_error (Call.eq_settled tally ran).symm
  · intro calls balanced spares
    refine runAll_of_tracked tally spares (Balanced.tracked ?_ nesting)
    rwa [List.map_map]

/-- A closer of another family fails and changes nothing, and a pair of braces is
opened and closed again. -/
theorem reached_represents_mismatched :
    Reached (Nesting.empty.push .paren 0) ∧ Represents (Nesting.empty.push .paren 0) ∧
      (Call.close .square 1).run (Nesting.empty.push .paren 0) =
        .ok (.error (.bracket (.mismatched .paren 0 .square) 1), Nesting.empty.push .paren 0) ∧
      Call.runAll [.push .brace 2, .track ⟨.comma, ⟨3, 4⟩, ","⟩, .close .brace 4]
        (Nesting.empty.push .paren 0) =
          .ok ([.ok (), .ok (), .ok ()], Nesting.empty.push .paren 0) := by
  have ran : (Call.push .paren 0).run .empty = .ok (.ok (), Nesting.empty.push .paren 0) := rfl
  have opened : Reached (Nesting.empty.push .paren 0) := .call .empty ran (by decide)
  obtain ⟨represents, does, -, -, restores⟩ := reached_represents opened
  have failed : (Call.close .square 1).run (Nesting.empty.push .paren 0) =
      .ok (.error (.bracket (.mismatched .paren 0 .square) 1), Nesting.empty.push .paren 0) :=
    does (.close .square 1) nofun
  have again : Reached (Nesting.empty.push .paren 0) := .call opened failed (by decide)
  refine ⟨again, represents, failed, restores _ (.group .brace (.plain rfl .nil) .nil) ?_⟩
  intro front within
  have few : front.countP Call.opens ≤ 3 := Nat.le_trans List.countP_le_length within.length_le
  have room : 1 + 3 ≤ maxOffset := by decide
  change 1 + _ ≤ _
  omega

end FragmentBounds.Checked
