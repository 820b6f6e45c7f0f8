import FragmentBounds.Recognizer
import Mathlib.Data.List.Forall2

/-! Two sources of which some tokens are the same but for where they lie. What
is made of such tokens on either side, spans and nestings and faults, is again
the same but for its offsets. -/
namespace FragmentBounds

/-- Which offsets of two sources belong together, as the start of a token and
as the end of one. -/
structure Alignment where
  starts : Nat → Nat → Prop
  stops : Nat → Nat → Prop
  starts_min {x y z w : Nat} : starts x y → starts z w → starts (min x z) (min y w)
  stops_max {x y z w : Nat} : stops x y → stops z w → stops (max x z) (max y w)

def Alignment.loose (alignment : Alignment) : Alignment where
  starts := alignment.starts
  stops _ _ := True
  starts_min := alignment.starts_min
  stops_max _ _ := trivial

structure Alignment.Within (alignment wider : Alignment) : Prop where
  starts : ∀ x y, alignment.starts x y → wider.starts x y
  stops : ∀ x y, alignment.stops x y → wider.stops x y

theorem Alignment.within_self (alignment : Alignment) : alignment.Within alignment :=
  ⟨fun _ _ aligned => aligned, fun _ _ aligned => aligned⟩

theorem Alignment.within_loose (alignment : Alignment) : alignment.Within alignment.loose :=
  ⟨fun _ _ aligned => aligned, fun _ _ _ => trivial⟩

structure Span.Matches (alignment : Alignment) (left right : Span) : Prop where
  start : alignment.starts left.start right.start
  stop : alignment.stops left.stop right.stop

/-- Spans of tokens that belong together, or two empty spans at such tokens. -/
inductive Span.Corresponds (alignment : Alignment) : Span → Span → Prop
  | covers {left right : Span} (matched : left.Matches alignment right) :
      Corresponds alignment left right
  | point {x y : Nat} (aligned : alignment.starts x y) :
      Corresponds alignment (.point x) (.point y)

/-- The same token but for where it lies, and it may end anywhere. -/
structure Token.Matches (alignment : Alignment) (left right : Token) : Prop where
  tag : right.tag = left.tag
  text : right.text = left.text
  start : alignment.starts left.span.start right.span.start

structure Opener.Matches (alignment : Alignment) (left right : Opener) : Prop where
  bracket : right.bracket = left.bracket
  offset : alignment.starts left.offset right.offset

structure Nesting.Matches (alignment : Alignment) (left right : Nesting) : Prop where
  openers : List.Forall₂ (Opener.Matches alignment) left.openers right.openers
  depths : right.depths = left.depths

/-- The same fault but for its offsets. -/
inductive Fault.Matches (aligned : Nat → Nat → Prop) : Fault → Fault → Prop
  | malformed {x y : Nat} (kind : Malformation) (place : aligned x y) :
      Matches aligned (.malformed kind x) (.malformed kind y)
  | unmatched {x y : Nat} (found : Bracket) (place : aligned x y) :
      Matches aligned (.bracket (.unmatched found) x) (.bracket (.unmatched found) y)
  | mismatched {x y openedAt alsoAt : Nat} (opener found : Bracket)
      (opened : aligned openedAt alsoAt) (place : aligned x y) :
      Matches aligned (.bracket (.mismatched opener openedAt found) x)
        (.bracket (.mismatched opener alsoAt found) y)
  | unclosed {x y : Nat} (opener : Bracket) (place : aligned x y) :
      Matches aligned (.bracket (.unclosed opener) x) (.bracket (.unclosed opener) y)
  | expected {x y : Nat} (what : Expectation) (found : Tag) (place : aligned x y) :
      Matches aligned (.expected what found x) (.expected what found y)

/-- Both succeed with related values, or both fail with faults that match. -/
inductive Agree {β γ : Type} (aligned : Nat → Nat → Prop) (R : β → γ → Prop) :
    Except Fault β → Except Fault γ → Prop
  | ok {left : β} {right : γ} (related : R left right) : Agree aligned R (.ok left) (.ok right)
  | error {left right : Fault} (matched : left.Matches aligned right) :
      Agree aligned R (.error left) (.error right)

section Agree

variable {aligned wider : Nat → Nat → Prop} {β γ β' γ' : Type} {R T : β → γ → Prop}
  {S : β' → γ' → Prop}

theorem Agree.bind_of_eq {left : Except Fault β} {right : Except Fault γ} {f : β → Except Fault β'}
    {g : γ → Except Fault γ'} (first : Agree aligned R left right)
    (next : ∀ a b, left = .ok a → R a b → Agree aligned S (f a) (g b)) :
    Agree aligned S (left >>= f) (right >>= g) := by
  cases first with
  | ok related => exact next _ _ rfl related
  | error matched => exact .error matched

theorem Agree.bind {left : Except Fault β} {right : Except Fault γ} {f : β → Except Fault β'}
    {g : γ → Except Fault γ'} (first : Agree aligned R left right)
    (next : ∀ a b, R a b → Agree aligned S (f a) (g b)) :
    Agree aligned S (left >>= f) (right >>= g) :=
  first.bind_of_eq fun a b _ related => next a b related

theorem Agree.exists_ok {a : β} {right : Except Fault γ} (agreed : Agree aligned R (.ok a) right) :
    ∃ b, right = .ok b ∧ R a b := by
  cases agreed with
  | ok related => exact ⟨_, rfl, related⟩

theorem Agree.map {left : Except Fault β} {right : Except Fault γ} {f : β → β'} {g : γ → γ'}
    (first : Agree aligned R left right) (next : ∀ a b, R a b → S (f a) (g b)) :
    Agree aligned S (f <$> left) (g <$> right) := by
  cases first with
  | ok related => exact .ok (next _ _ related)
  | error matched => exact .error matched

theorem Fault.Matches.mono {left right : Fault} (matched : left.Matches aligned right)
    (weaker : ∀ x y, aligned x y → wider x y) : left.Matches wider right := by
  cases matched with
  | malformed kind place => exact .malformed kind (weaker _ _ place)
  | unmatched found place => exact .unmatched found (weaker _ _ place)
  | mismatched opener found opened place =>
    exact .mismatched opener found (weaker _ _ opened) (weaker _ _ place)
  | unclosed opener place => exact .unclosed opener (weaker _ _ place)
  | expected what found place => exact .expected what found (weaker _ _ place)

theorem Agree.mono {left : Except Fault β} {right : Except Fault γ}
    (agreed : Agree aligned R left right) (weaker : ∀ x y, aligned x y → wider x y)
    (looser : ∀ a b, R a b → T a b) : Agree wider T left right := by
  cases agreed with
  | ok related => exact .ok (looser _ _ related)
  | error matched => exact .error (matched.mono weaker)

end Agree

variable {alignment wider : Alignment}

theorem Span.Matches.mono {left right : Span} (matched : left.Matches alignment right)
    (within : alignment.Within wider) : left.Matches wider right :=
  ⟨within.starts _ _ matched.start, within.stops _ _ matched.stop⟩

theorem Span.Corresponds.mono {left right : Span} (same : left.Corresponds alignment right)
    (within : alignment.Within wider) : left.Corresponds wider right := by
  cases same with
  | covers matched => exact .covers (matched.mono within)
  | point aligned => exact .point (within.starts _ _ aligned)

theorem fragment_mono {fragment also : Option Span}
    (same : Option.Rel (Span.Matches alignment) fragment also)
    (within : alignment.Within wider) : Option.Rel (Span.Matches wider) fragment also := by
  cases same with
  | none => exact .none
  | some covers => exact .some (covers.mono within)

theorem Nesting.Matches.mono {left right : Nesting} (matched : left.Matches alignment right)
    (within : alignment.Within wider) : left.Matches wider right :=
  ⟨matched.openers.imp fun _ _ same => ⟨same.bracket, within.starts _ _ same.offset⟩, matched.depths⟩

theorem Span.Matches.merge {left right other also : Span} (first : left.Matches alignment right)
    (second : other.Matches alignment also) :
    (left.merge other).Matches alignment (right.merge also) :=
  ⟨alignment.starts_min first.start second.start, alignment.stops_max first.stop second.stop⟩

section Token

variable {left right : Token} (matched : left.Matches alignment right)
include matched

theorem Token.Matches.keyword?_eq : right.keyword? = left.keyword? := by
  rw [Token.keyword?, Token.keyword?, matched.tag, matched.text]

theorem Token.Matches.isName_eq : right.isName = left.isName := by
  rw [Token.isName, Token.isName, matched.tag, matched.keyword?_eq]

theorem Token.Matches.isTrivia_eq : right.isTrivia = left.isTrivia := by
  rw [Token.isTrivia, Token.isTrivia, matched.tag]

theorem Token.Matches.breaksLine_eq : right.breaksLine = left.breaksLine := by
  rw [Token.breaksLine, Token.breaksLine, matched.tag, matched.text]

theorem Token.Matches.unexpected (what : Expectation) :
    (left.unexpected what).Matches alignment.starts (right.unexpected what) := by
  rw [Token.unexpected, Token.unexpected, matched.tag]
  exact .expected what left.tag matched.start

theorem Token.Matches.span (stop : alignment.stops left.span.stop right.span.stop) :
    left.span.Matches alignment right.span := ⟨matched.start, stop⟩

theorem Token.Matches.mono (within : alignment.Within wider) : left.Matches wider right :=
  ⟨matched.tag, matched.text, within.starts _ _ matched.start⟩

theorem Token.Matches.extendFragment {fragment also : Option Span}
    (same : Option.Rel (Span.Matches alignment) fragment also)
    (stop : alignment.stops left.span.stop right.span.stop) :
    Option.Rel (Span.Matches alignment) (extendFragment fragment left)
      (FragmentBounds.extendFragment also right) := by
  cases same with
  | none => exact .some (matched.span stop)
  | some same => exact .some (same.merge (matched.span stop))

end Token

theorem Token.matches_endOfInput {size also : Nat} (aligned : alignment.starts size also) :
    (Token.endOfInput size).Matches alignment (Token.endOfInput also) := ⟨rfl, rfl, aligned⟩

theorem corresponds_getD {fragment also : Option Span} {x y : Nat}
    (same : Option.Rel (Span.Matches alignment) fragment also) (aligned : alignment.starts x y) :
    (fragment.getD (.point x)).Corresponds alignment (also.getD (.point y)) := by
  cases same with
  | none => exact .point aligned
  | some same => exact .covers same

namespace Nesting.Matches

variable {left right : Nesting}

theorem empty : Nesting.empty.Matches alignment Nesting.empty := ⟨.nil, rfl⟩

theorem isTopLevel_eq (matched : left.Matches alignment right) :
    right.isTopLevel = left.isTopLevel := by
  obtain ⟨openers, depths⟩ := left
  obtain ⟨others, also⟩ := right
  cases matched.openers <;> rfl

theorem close (matched : left.Matches alignment right) (bracket : Bracket) {x y : Nat}
    (aligned : alignment.starts x y) :
    Agree alignment.starts (Nesting.Matches alignment) (left.close bracket x) (right.close bracket y) := by
  obtain ⟨openers, depths⟩ := left
  obtain ⟨others, also⟩ := right
  obtain ⟨same, rfl⟩ := matched
  cases same with
  | nil => exact .error (.unmatched bracket aligned)
  | cons same more =>
    simp only [Nesting.close]
    rw [same.bracket]
    split
    · exact .ok ⟨more, rfl⟩
    · exact .error (.mismatched _ _ same.offset aligned)

theorem track (matched : left.Matches alignment right) {token also : Token}
    (same : token.Matches alignment also) :
    Agree alignment.starts (Nesting.Matches alignment) (left.track token) (right.track also) := by
  unfold Nesting.track
  rw [same.tag]
  cases token.tag with
  | opening bracket =>
    have top : Opener.Matches alignment ⟨bracket, token.span.start⟩ ⟨bracket, also.span.start⟩ :=
      ⟨rfl, same.start⟩
    exact .ok ⟨.cons top matched.openers, by rw [Nesting.push, Nesting.push, matched.depths]⟩
  | closing bracket => exact matched.close bracket same.start
  | _ => exact .ok matched

theorem ensureClosed (matched : left.Matches alignment right) :
    Agree alignment.starts Eq left.ensureClosed right.ensureClosed := by
  obtain ⟨openers, depths⟩ := left
  obtain ⟨others, also⟩ := right
  cases matched.openers with
  | nil => exact .ok rfl
  | cons same _ =>
    simp only [Nesting.ensureClosed, innermost?, List.head?_cons]
    rw [same.bracket]
    exact .error (.unclosed _ same.offset)

end Nesting.Matches

end FragmentBounds
