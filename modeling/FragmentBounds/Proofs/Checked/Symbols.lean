import FragmentBounds.Proofs.Checked.Facing
import FragmentBounds.Proofs.Lexeme.Boundary

/-! Symbols as they are scanned: character by character, as far as there is a
longer spelling. -/
namespace FragmentBounds.Checked

open Lexeme

def continues (front : List Char) : List Char :=
  spellings.filterMap fun entry =>
    if front.isPrefixOf entry.1 then (entry.1.drop front.length).head? else none

def startsSymbol (c : Char) : Bool :=
  c != '\n' && c != '\r' && !isBlank c && c != '/' && !isLetter c && !c.isDigit && c != '.' &&
    c != '"' && c != '\'' && c != '\x60'

def spells (front : List Char) (tag : Tag) (stops : List Char) : Bool :=
  decide (ofSpelling? front = some tag) && (continues front).all stops.contains

variable {source : String} {front rest : List Char} {tag : Tag} {stops : List Char}

theorem symbol?_of_spells (spelled : spells front tag stops)
    (ended : rest.head?.all fun c => !stops.contains c) :
    symbol? (front ++ rest) = some (⟨tag, front⟩, rest) := by
  simp only [spells, Bool.and_eq_true, decide_eq_true_eq, List.all_eq_true] at spelled
  obtain ⟨spelled, further⟩ := spelled
  refine symbol?_eq_some.mpr ⟨rfl, spelled, fun long other found within => ?_⟩
  apply Nat.le_of_not_lt
  intro longer
  obtain ⟨more, rfl⟩ : front <+: long :=
    List.prefix_of_prefix_length_le (List.prefix_append ..) within (Nat.le_of_lt longer)
  rw [List.prefix_append_right_inj] at within
  obtain ⟨after, rfl⟩ := within
  cases more with
  | nil => simp at longer
  | cons c more =>
    have member : c ∈ continues front := by
      refine List.mem_filterMap.mpr ⟨_, mem_spellings_of_ofSpelling? found, ?_⟩
      simp
    have stop := further c member
    simp only [List.cons_append, List.head?_cons, Option.all_some, stop] at ended
    cases ended

theorem first?_of_spells (starts : front.head?.any startsSymbol) (spelled : spells front tag stops)
    (ended : rest.head?.all fun c => !stops.contains c) :
    first? (front ++ rest) = some (⟨tag, front⟩, rest) := by
  have found := symbol?_of_spells spelled ended
  cases front with
  | nil => simp at starts
  | cons c front =>
    simp only [List.head?_cons, Option.any_some, startsSymbol, Bool.and_eq_true, bne_iff_ne, ne_eq,
      Bool.not_eq_true'] at starts
    obtain ⟨⟨⟨⟨⟨⟨⟨-, slash⟩, -⟩, -⟩, point⟩, -⟩, -⟩, -⟩ := starts
    apply first?_of_symbol? found
    · exact fun same => absurd same slash
    · exact fun same => absurd same point

variable {cursor first : Cursor} {c : Char}

theorem all_of_head?_ne {a : Char} (other : rest.head? ≠ some a)
    (ended : rest.head?.all fun d => !stops.contains d) :
    rest.head?.all fun d => !(a :: stops).contains d := by
  cases rest with
  | nil => rfl
  | cons d rest =>
    have differs : d ≠ a := fun same => other (by rw [same]; rfl)
    simpa [differs] using ended

theorem all_nil (rest : List Char) : rest.head?.all fun d => !([] : List Char).contains d := by
  cases rest <;> rfl

private theorem returns_alone (begun : Faces source first (c :: rest)) (here : Faces source cursor rest)
    (starts : startsSymbol c) (spelled : spells [c] tag stops)
    (ended : rest.head?.all fun d => !stops.contains d) :
    Returns (piece first.pos tag cursor) (Scanned source (c :: rest)) := by
  have found : first? ([c] ++ rest) = some (⟨tag, [c]⟩, rest) :=
    first?_of_spells starts spelled ended
  exact returns_piece begun found here

private theorem returns_pair {d : Char} (begun : Faces source first (c :: d :: rest))
    (here : Faces source cursor (d :: rest)) (low : d.toNat < 128) (starts : startsSymbol c)
    (spelled : spells [c, d] tag []) :
    Returns (single first.pos tag cursor) (Scanned source (c :: d :: rest)) := by
  have found : first? ([c, d] ++ rest) = some (⟨tag, [c, d]⟩, rest) :=
    first?_of_spells starts spelled (all_nil rest)
  exact returns_single begun found here low

theorem returns_lone (begun : Faces source cursor (c :: rest)) (low : c.toNat < 128)
    (starts : startsSymbol c) (spelled : spells [c] tag []) :
    Returns (single cursor.pos tag cursor) (Scanned source (c :: rest)) := by
  have advanced := begun.advance low
  apply advanced.moves
  exact returns_alone begun advanced starts spelled (all_nil rest)

private theorem returns_equals (front : List Char) {equal alone : Tag}
    (begun : Faces source first (front ++ c :: rest)) (here : Faces source cursor (c :: rest))
    (low : c.toNat < 128) (starts : (front ++ [c]).head?.any startsSymbol)
    (spelled : spells (front ++ [c]) alone ('=' :: stops))
    (longer : spells (front ++ [c, '=']) equal [])
    (ended : rest.head?.all fun d => !stops.contains d) :
    Returns (withEquals first.pos equal alone cursor) (Scanned source (front ++ c :: rest)) := by
  have advanced := here.advance low
  apply advanced.moves
  rcases advanced.look '=' rfl with ⟨after, rfl, sees⟩ | ⟨blind, other⟩
  · rw [if_pos sees]
    have begins : (front ++ [c, '=']).head?.any startsSymbol := by
      cases front <;> exact starts
    have found := first?_of_spells begins longer (all_nil after)
    rw [List.append_assoc] at found
    exact returns_single begun found advanced (by decide)
  · rw [if_neg blind]
    have found := first?_of_spells starts spelled (all_of_head?_ne other ended)
    rw [List.append_assoc] at found
    exact returns_piece begun found advanced

theorem returns_withEquals {equal alone : Tag} (begun : Faces source cursor (c :: rest))
    (low : c.toNat < 128) (starts : startsSymbol c) (spelled : spells [c] alone ['='])
    (longer : spells [c, '='] equal []) :
    Returns (withEquals cursor.pos equal alone cursor) (Scanned source (c :: rest)) :=
  returns_equals [] begun begun low starts spelled longer (all_nil rest)

private theorem returns_twice (begun : Faces source cursor (c :: c :: rest)) (low : c.toNat < 128)
    (starts : startsSymbol c) (spelled : spells [c, c] tag []) :
    Returns (moved (cursor.advanceBy 2) >>= piece cursor.pos tag) (Scanned source (c :: c :: rest)) := by
  have whole : c :: c :: rest = [c, c] ++ rest := rfl
  have passed : Faces source (cursor.advanceBy 2) rest := by
    apply begun.advanceBy whole
    simp [Faces.utf8Size_of_ascii low]
  apply passed.moves
  have found : first? ([c, c] ++ rest) = some (⟨tag, [c, c]⟩, rest) :=
    first?_of_spells starts spelled (all_nil rest)
  exact returns_piece begun found passed

theorem returns_doubled {twice once : Operator} (begun : Faces source cursor (c :: rest))
    (mark : isMark c) (starts : startsSymbol c) (double : spells [c, c] (.operator twice) [])
    (spelled : spells [c] (.operator once) ['=', c])
    (longer : spells [c, '='] (.operator .compoundAssign) []) :
    Returns (doubled cursor.pos c twice once cursor) (Scanned source (c :: rest)) := by
  obtain ⟨low, -⟩ := isMark_iff.mp mark
  have advanced := begun.advance low
  have seen : cursor.peek 1 = cursor.advance.current := begun.peek_succ low 0 advanced
  rw [doubled, seen]
  rcases advanced.look c mark with ⟨after, rfl, sees⟩ | ⟨blind, other⟩
  · rw [if_pos sees]
    exact returns_twice begun low starts double
  · rw [if_neg blind]
    have ended := all_of_head?_ne other (all_nil rest)
    exact returns_equals [] begun begun low starts spelled longer ended

theorem returns_ampersand (begun : Faces source cursor ('&' :: rest)) :
    Returns (ampersand cursor.pos cursor) (Scanned source ('&' :: rest)) := by
  have low : '&'.toNat < 128 := by decide
  have advanced := begun.advance low
  have seen : cursor.peek 1 = cursor.advance.current := begun.peek_succ low 0 advanced
  rw [ampersand, seen]
  rcases advanced.look '&' rfl with ⟨after, rfl, sees⟩ | ⟨blind, other⟩
  · rw [if_pos sees]
    exact returns_twice begun low (by decide) (by decide)
  rw [if_neg blind]
  rcases advanced.look '^' rfl with ⟨after, rfl, sees⟩ | ⟨blind, caretless⟩
  · rw [if_pos sees]
    apply advanced.moves
    have behind := all_nil after
    exact returns_equals ['&'] begun advanced (by decide) (by decide) (by decide) (by decide) behind
  · rw [if_neg blind]
    have ended := all_of_head?_ne other (all_of_head?_ne caretless (all_nil rest))
    exact returns_equals [] begun begun low (by decide) (by decide) (by decide) ended

private theorem returns_shift {operator : Operator} (begun : Faces source first (c :: c :: rest))
    (here : Faces source cursor (c :: rest)) (low : c.toNat < 128) (starts : startsSymbol c)
    (spelled : spells [c, c] (.operator operator) ['='])
    (longer : spells [c, c, '='] (.operator .compoundAssign) []) :
    Returns (withAssign first.pos operator cursor) (Scanned source (c :: c :: rest)) :=
  returns_equals [c] begun here low starts spelled longer (all_nil rest)

theorem returns_less (begun : Faces source cursor ('<' :: rest)) :
    Returns (less cursor.pos cursor) (Scanned source ('<' :: rest)) := by
  have advanced := begun.advance (by decide)
  apply advanced.moves
  rcases advanced.look '<' rfl with ⟨after, rfl, sees⟩ | ⟨blind, other⟩
  · rw [if_pos sees]
    exact returns_shift begun advanced (by decide) (by decide) (by decide) (by decide)
  rw [if_neg blind]
  rcases advanced.look '=' rfl with ⟨after, rfl, sees⟩ | ⟨blind, unequal⟩
  · rw [if_pos sees]
    exact returns_pair begun advanced (by decide) (by decide) (by decide)
  rw [if_neg blind]
  rcases advanced.look '-' rfl with ⟨after, rfl, sees⟩ | ⟨blind, dashless⟩
  · rw [if_pos sees]
    exact returns_pair begun advanced (by decide) (by decide) (by decide)
  · rw [if_neg blind]
    have ended := all_of_head?_ne other (all_of_head?_ne unequal
      (all_of_head?_ne dashless (all_nil rest)))
    exact returns_alone begun advanced (by decide) (by decide) ended

theorem returns_greater (begun : Faces source cursor ('>' :: rest)) :
    Returns (greater cursor.pos cursor) (Scanned source ('>' :: rest)) := by
  have advanced := begun.advance (by decide)
  apply advanced.moves
  rcases advanced.look '>' rfl with ⟨after, rfl, sees⟩ | ⟨blind, other⟩
  · rw [if_pos sees]
    exact returns_shift begun advanced (by decide) (by decide) (by decide) (by decide)
  rw [if_neg blind]
  rcases advanced.look '=' rfl with ⟨after, rfl, sees⟩ | ⟨blind, unequal⟩
  · rw [if_pos sees]
    exact returns_pair begun advanced (by decide) (by decide) (by decide)
  · rw [if_neg blind]
    have ended := all_of_head?_ne other (all_of_head?_ne unequal (all_nil rest))
    exact returns_alone begun advanced (by decide) (by decide) ended

end FragmentBounds.Checked
