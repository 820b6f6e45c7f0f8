import FragmentBounds.Token.Basic

/-! The brackets that are open at a place in a sequence of tokens, with a count
of each family. A closer must match the innermost opener. -/
namespace FragmentBounds

structure Opener where
  bracket : Bracket
  offset : Nat
  deriving DecidableEq, Repr

/-- A number for each family of brackets. -/
structure Depths where
  paren : Nat
  square : Nat
  brace : Nat
  deriving DecidableEq, Repr

namespace Depths

def zero : Depths := ⟨0, 0, 0⟩

def get (depths : Depths) : Bracket → Nat
  | .paren => depths.paren
  | .square => depths.square
  | .brace => depths.brace

def modify (depths : Depths) (bracket : Bracket) (f : Nat → Nat) : Depths :=
  match bracket with
  | .paren => { depths with paren := f depths.paren }
  | .square => { depths with square := f depths.square }
  | .brace => { depths with brace := f depths.brace }

@[simp] theorem get_modify (depths : Depths) (bracket other : Bracket) (f : Nat → Nat) :
    (depths.modify bracket f).get other =
      if bracket = other then f (depths.get other) else depths.get other := by
  cases bracket <;> cases other <;> rfl

end Depths

/-- Open brackets, innermost first. -/
structure Nesting where
  openers : List Opener
  depths : Depths
  deriving DecidableEq, Repr

namespace Nesting

def empty : Nesting := ⟨[], .zero⟩

def isTopLevel (nesting : Nesting) : Bool := nesting.openers.isEmpty

def depth (nesting : Nesting) : Nat := nesting.openers.length

def depthOf (nesting : Nesting) (bracket : Bracket) : Nat := nesting.depths.get bracket

def innermost? (nesting : Nesting) : Option Opener := nesting.openers.head?

def push (nesting : Nesting) (bracket : Bracket) (offset : Nat) : Nesting :=
  ⟨⟨bracket, offset⟩ :: nesting.openers, nesting.depths.modify bracket (· + 1)⟩

def close (nesting : Nesting) (bracket : Bracket) (offset : Nat) : Except Fault Nesting :=
  match nesting.openers with
  | [] => .error (.bracket (.unmatched bracket) offset)
  | opener :: openers =>
    if opener.bracket = bracket then .ok ⟨openers, nesting.depths.modify bracket (· - 1)⟩
    else .error (.bracket (.mismatched opener.bracket opener.offset bracket) offset)

def track (nesting : Nesting) (token : Token) : Except Fault Nesting :=
  match token.tag with
  | .opening bracket => .ok (nesting.push bracket token.span.start)
  | .closing bracket => nesting.close bracket token.span.start
  | _ => .ok nesting

/-- The fault of the innermost bracket that is still open. -/
def ensureClosed (nesting : Nesting) : Except Fault Unit :=
  match nesting.innermost? with
  | none => .ok ()
  | some opener => .error (.bracket (.unclosed opener.bracket) opener.offset)

theorem close_push (nesting : Nesting) (bracket : Bracket) (opened closed : Nat) :
    (nesting.push bracket opened).close bracket closed = .ok nesting := by
  obtain ⟨openers, paren, square, brace⟩ := nesting
  cases bracket <;> rfl

theorem isTopLevel_iff (nesting : Nesting) : nesting.isTopLevel ↔ nesting.openers = [] := by
  simp [isTopLevel]

theorem ensureClosed_eq_ok (nesting : Nesting) :
    nesting.ensureClosed = .ok () ↔ nesting.isTopLevel := by
  obtain ⟨openers, depths⟩ := nesting
  cases openers <;> simp [ensureClosed, innermost?, isTopLevel]

end Nesting

end FragmentBounds
