import FragmentBounds.Proofs.Bracket.Nesting
import FragmentBounds.Proofs.Recognizer.Reading

/-! Sequences of tokens in which every bracket is closed by one of its family,
and machines that only follow brackets while some are open. -/
namespace FragmentBounds

/-- Tags whose brackets match. -/
inductive Balanced : List Tag → Prop
  | nil : Balanced []
  | plain {tag : Tag} {rest : List Tag} (plain : tag.isBracket = false) (more : Balanced rest) :
      Balanced (tag :: rest)
  | group {inner rest : List Tag} (bracket : Bracket) (inside : Balanced inner)
      (more : Balanced rest) : Balanced (.opening bracket :: (inner ++ .closing bracket :: rest))

theorem Balanced.append {front back : List Tag} (left : Balanced front) (right : Balanced back) :
    Balanced (front ++ back) := by
  induction left with
  | nil => exact right
  | plain plain _ ih => exact .plain plain ih
  | group bracket inside _ _ ih =>
    rw [List.cons_append, List.append_assoc]
    exact .group bracket inside ih

namespace Recognizer

variable {σ α : Type}

/-- While brackets are open, the machine takes every token in and does with the
brackets what a nesting does. -/
def Follows (machine : Recognizer σ α) (nesting : σ → Nesting) : Prop :=
  ∀ state gap token inner, (nesting state).isTopLevel = false →
    (nesting state).track token = .ok inner →
      ∃ next, machine.step state gap token = .ok (.more next) ∧ nesting next = inner

end Recognizer

end FragmentBounds
