import FragmentBounds.Proofs.Lexeme.Following

/-! Readers that go on as long as they can. One reader behind another is greedy
like the two, if nothing that the second reads starts with a character that the
first goes on with. -/
namespace FragmentBounds.Lexeme

variable {α β : Type}

/-- A reader that gets parts of a form and makes them as long as it can. A part
is read as it is, if the character behind does not go on with it, and otherwise
something longer is read. -/
structure Greedy (read : List Char → α × List Char) (spell : α → List Char) (form : α → Prop)
    (goesOn : α → Char → Prop) : Prop where
  forms : ∀ text, form (read text).1
  exact : ∀ {part : α} {more : List Char}, form part → Next (fun c => ¬ goesOn part c) more →
    read (spell part ++ more) = (part, more)
  longer : ∀ {part : α} {c : Char} (more : List Char), form part → goesOn part c →
    (spell part).length < (spell (read (spell part ++ c :: more)).1).length

def both (first : List Char → α × List Char) (second : List Char → β × List Char)
    (text : List Char) : (α × β) × List Char :=
  (((first text).1, (second (first text).2).1), (second (first text).2).2)

def spellBoth (first : α → List Char) (second : β → List Char) (parts : α × β) : List Char :=
  first parts.1 ++ second parts.2

/-- A character that a reader goes on with, or the one before it if there is nothing between. -/
def GoesOnBoth (spell : β → List Char) (first : α → Char → Prop) (second : β → Char → Prop)
    (parts : α × β) (c : Char) : Prop :=
  second parts.2 c ∨ spell parts.2 = [] ∧ first parts.1 c

namespace Greedy

variable {read : List Char → α × List Char} {spell : α → List Char} {form : α → Prop}
  {goesOn : α → Char → Prop} {other : List Char → β × List Char} {spellOther : β → List Char}
  {formOther : β → Prop} {goesOnOther : β → Char → Prop}

theorem read_or_longer (greedy : Greedy read spell form goesOn) {part : α} (formed : form part)
    (more : List Char) : read (spell part ++ more) = (part, more) ∨
      (spell part).length < (spell (read (spell part ++ more)).1).length := by
  cases more with
  | nil => exact .inl (greedy.exact formed (next_nil _))
  | cons c more =>
    by_cases further : goesOn part c
    · exact .inr (greedy.longer more formed further)
    · exact .inl (greedy.exact formed (next_cons.mpr further))

/-- Readers are greedy one behind the other, if what the second reads never
starts with a character that the first goes on with. -/
theorem both (first : Greedy read spell form goesOn)
    (second : Greedy other spellOther formOther goesOnOther)
    (apart : ∀ {part : α} {next : β}, form part → formOther next →
      Next (fun c => ¬ goesOn part c) (spellOther next)) :
    Greedy (both read other) (spellBoth spell spellOther)
      (fun parts => form parts.1 ∧ formOther parts.2) (GoesOnBoth spellOther goesOn goesOnOther) := by
  have reads {part : α} {next : β} {more : List Char} (formed : form part) (formedNext : formOther next)
      (stops : spellOther next = [] → Next (fun c => ¬ goesOn part c) more) :
      read (spellBoth spell spellOther (part, next) ++ more) = (part, spellOther next ++ more) := by
    rw [spellBoth, List.append_assoc]
    refine first.exact formed ?_
    cases text : spellOther next with
    | nil => exact stops text
    | cons c text =>
      have apart := apart formed formedNext
      rwa [text] at apart
  refine ⟨fun text => ⟨first.forms _, second.forms _⟩, ?_, ?_⟩
  · rintro ⟨part, next⟩ more ⟨formed, formedNext⟩ stops
    have begun := reads formed formedNext fun none => stops.imp fun _ goesOn further =>
      goesOn (.inr ⟨none, further⟩)
    rw [Lexeme.both, begun, second.exact formedNext (stops.imp fun _ goesOn further =>
      goesOn (.inl further))]
  · rintro ⟨part, next⟩ c more ⟨formed, formedNext⟩ further
    by_cases before : spellOther next = [] ∧ goesOn part c
    · obtain ⟨none, further⟩ := before
      have longer := first.longer more formed further
      simp only [spellBoth, Lexeme.both, none, List.append_nil, List.length_append]
      exact Nat.lt_of_lt_of_le longer (Nat.le_add_right _ _)
    · have begun : read (spellBoth spell spellOther (part, next) ++ c :: more) =
          (part, spellOther next ++ c :: more) :=
        reads formed formedNext fun none => next_cons.mpr fun further => before ⟨none, further⟩
      have longer := second.longer more formedNext (further.resolve_right before)
      rw [Lexeme.both, begun, spellBoth, spellBoth, List.length_append, List.length_append]
      exact Nat.add_lt_add_left longer _

end Greedy

section Readers

def run (p : Char → Bool) (text : List Char) : List Char × List Char :=
  (text.takeWhile p, text.dropWhile p)

theorem greedy_run (p : Char → Bool) :
    Greedy (run p) id (fun part => ∀ c ∈ part, p c) fun _ c => p c where
  forms _ _ := of_mem_takeWhile
  exact all stops := by
    have ended := stops.imp fun _ other => Bool.eq_false_iff.mpr other
    exact Prod.ext (takeWhile_of_next all ended) (dropWhile_of_next all ended)
  longer more all further := by
    simp [run, List.takeWhile_append_of_pos all, further]

theorem greedy_sign :
    Greedy sign id (· ∈ [[], ['+'], ['-']]) fun part c => part = [] ∧ (c = '+' ∨ c = '-') where
  forms text := by
    unfold sign
    split <;> simp
  exact {part more} signed stops := by
    simp only [List.mem_cons, List.not_mem_nil, or_false] at signed
    rcases signed with rfl | rfl | rfl
    · cases more with
      | nil => rfl
      | cons c more =>
        have other := next_cons.mp stops
        simp only [true_and, not_or] at other
        simp [sign, other]
    · rfl
    · rfl
  longer more _ further := by
    obtain ⟨rfl, rfl | rfl⟩ := further <;> simp [sign]

theorem greedy_nothing :
    Greedy (fun text => ((), text)) (fun _ : Unit => []) (fun _ => True) fun _ _ => False where
  forms _ := trivial
  exact _ _ := rfl
  longer _ _ := False.elim

variable {p : Char → Bool} {read : List Char → α × List Char} {spell : α → List Char}
  {form : α → Prop} {goesOn : α → Char → Prop} {text : List Char} {c : Char}

def headed (p : Char → Bool) (read : List Char → α × List Char) (spell : α → List Char) :
    List Char → List Char × List Char
  | [] => ([], [])
  | c :: text => if p c then (c :: spell (read text).1, (read text).2) else ([], c :: text)

inductive Headed (p : Char → Bool) (spell : α → List Char) (form : α → Prop) : List Char → Prop
  | none : Headed p spell form []
  | head {c : Char} {part : α} (starts : p c) (formed : form part) :
      Headed p spell form (c :: spell part)

/-- Nothing goes on with a character that satisfies `p`, and a part behind one
with what the part goes on with. -/
inductive GoesOnHeaded (p : Char → Bool) (spell : α → List Char) (form : α → Prop)
    (goesOn : α → Char → Prop) : List Char → Char → Prop
  | none {c : Char} (starts : p c) : GoesOnHeaded p spell form goesOn [] c
  | head {head c : Char} {part : α} (formed : form part) (further : goesOn part c) :
      GoesOnHeaded p spell form goesOn (head :: spell part) c

theorem Headed.starts (headed : Headed p spell form text) : Next (fun c => p c) text := by
  cases headed with
  | none => exact next_nil _
  | head starts _ => exact next_cons.mpr starts

theorem GoesOnHeaded.or (further : GoesOnHeaded p spell form goesOn text c) :
    p c ∨ ∃ part, goesOn part c := by
  cases further with
  | none starts => exact .inl starts
  | head _ further => exact .inr ⟨_, further⟩

theorem Greedy.headed (greedy : Greedy read spell form goesOn) (p : Char → Bool) :
    Greedy (headed p read spell) id (Headed p spell form) (GoesOnHeaded p spell form goesOn) where
  forms text := by
    unfold Lexeme.headed
    split
    · exact .none
    · split
      · next starts => exact .head starts (greedy.forms _)
      · exact .none
  exact {part more} formed stops := by
    cases formed with
    | none =>
      cases more with
      | nil => rfl
      | cons c more =>
        have other : ¬ p c := fun starts => next_cons.mp stops (.none starts)
        simp [Lexeme.headed, other]
    | head starts formed =>
      have inner := greedy.exact formed (stops.imp fun _ other further => other (.head formed further))
      simp [Lexeme.headed, starts, inner]
  longer {part c} more formed further := by
    have starts := formed.starts
    cases further with
    | none first => simp [Lexeme.headed, first]
    | head inner further =>
      have longer := greedy.longer more inner further
      simpa [Lexeme.headed, next_cons.mp starts] using longer

end Readers

end FragmentBounds.Lexeme
