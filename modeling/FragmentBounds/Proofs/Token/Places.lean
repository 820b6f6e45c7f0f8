import FragmentBounds.Proofs.Recognizer.Spacing
import FragmentBounds.Proofs.Token.Layout

/-! Places of two sources that go by the same number: the starts of significant
tokens, of which the end of the source counts as one, and the ends of them. -/
namespace FragmentBounds

def SameIndex (left right : List Nat) (x y : Nat) : Prop :=
  ∃ index : Nat, left[index]? = some x ∧ right[index]? = some y

private theorem le_of_index {entries : List Nat} (rises : entries.Pairwise (· ≤ ·)) {i k x z : Nat}
    (before : i ≤ k) (first : entries[i]? = some x) (second : entries[k]? = some z) : x ≤ z := by
  obtain ⟨_, rfl⟩ := List.getElem?_eq_some_iff.mp first
  obtain ⟨bound, rfl⟩ := List.getElem?_eq_some_iff.mp second
  rcases Nat.eq_or_lt_of_le before with rfl | less
  · exact Nat.le_refl _
  · exact List.pairwise_iff_getElem.mp rises i k _ bound less

theorem SameIndex.ordered {left right : List Nat} (rises : left.Pairwise (· ≤ ·))
    (also : right.Pairwise (· ≤ ·)) {x y z w : Nat} (first : SameIndex left right x y)
    (second : SameIndex left right z w) : x ≤ z ∧ y ≤ w ∨ z ≤ x ∧ w ≤ y := by
  obtain ⟨i, leftFirst, rightFirst⟩ := first
  obtain ⟨k, leftSecond, rightSecond⟩ := second
  rcases Nat.le_total i k with before | before
  · exact .inl ⟨le_of_index rises before leftFirst leftSecond,
      le_of_index also before rightFirst rightSecond⟩
  · exact .inr ⟨le_of_index rises before leftSecond leftFirst,
      le_of_index also before rightSecond rightFirst⟩

theorem Laid.ordered {start stop : Nat} {tokens : List Token} (laid : Laid start tokens stop) :
    tokens.Pairwise fun left right => left.span.stop ≤ right.span.start := by
  induction laid with
  | nil => exact .nil
  | cons _ _ more ih => exact .cons (fun other member => (more.bounds member).1) ih

/-- The significant tokens of a source with their gaps, through the first
malformed one. -/
def spacedTokens (source : String) : List Spaced := spacedFrom .closed (tokens source)

/-- Where significant tokens start. The end of the source comes last, if no
malformed token comes before it. -/
def tokenStarts (source : String) : List Nat :=
  (spacedTokens source).map (·.token.span.start) ++
    if (spacedTokens source).any (·.token.tag.isMalformed) then [] else [source.utf8ByteSize]

def tokenStops (source : String) : List Nat := (spacedTokens source).map (·.token.span.stop)

variable {source : String}

private theorem bounds_spacedTokens {spaced : Spaced} (member : spaced ∈ spacedTokens source) :
    spaced.token.span.start < spaced.token.span.stop ∧
      spaced.token.span.stop ≤ source.utf8ByteSize := by
  have inside : spaced.token ∈ tokens source :=
    (sublist_spacedFrom .closed (tokens source)).subset (List.mem_map_of_mem member)
  exact ((laid_tokens source).bounds inside).2

private theorem ordered_spacedTokens :
    (spacedTokens source).Pairwise fun left right => left.token.span.stop ≤ right.token.span.start := by
  have ordered := (laid_tokens source).ordered.sublist (sublist_spacedFrom .closed (tokens source))
  exact List.pairwise_map.mp ordered

theorem rises_tokenStarts : (tokenStarts source).Pairwise (· ≤ ·) := by
  refine List.pairwise_append.mpr ⟨?_, ?_, ?_⟩
  · refine List.pairwise_map.mpr (ordered_spacedTokens.imp_of_mem ?_)
    intro left right member _ before
    have := bounds_spacedTokens member
    omega
  · split <;> simp
  · intro start member size ended
    obtain ⟨spaced, inside, rfl⟩ := List.mem_map.mp member
    have := bounds_spacedTokens inside
    split at ended
    · simp at ended
    · obtain rfl := List.mem_singleton.mp ended
      omega

theorem rises_tokenStops : (tokenStops source).Pairwise (· ≤ ·) := by
  refine List.pairwise_map.mpr (ordered_spacedTokens.imp_of_mem ?_)
  intro left right _ member before
  have := bounds_spacedTokens member
  omega

def Alignment.byIndex (left right : String) : Alignment where
  starts := SameIndex (tokenStarts left) (tokenStarts right)
  stops := SameIndex (tokenStops left) (tokenStops right)
  starts_min first second := by
    rcases first.ordered rises_tokenStarts rises_tokenStarts second with ⟨x, y⟩ | ⟨x, y⟩
    · rwa [Nat.min_eq_left x, Nat.min_eq_left y]
    · rwa [Nat.min_eq_right x, Nat.min_eq_right y]
  stops_max first second := by
    rcases first.ordered rises_tokenStops rises_tokenStops second with ⟨x, y⟩ | ⟨x, y⟩
    · rwa [Nat.max_eq_right x, Nat.max_eq_right y]
    · rwa [Nat.max_eq_left x, Nat.max_eq_left y]

variable {left right : String}
  (same : (spacedTokens left).map Spaced.spelling = (spacedTokens right).map Spaced.spelling)
include same

theorem aligned_byIndex : List.Forall₂
    (fun one other : Spaced => one.token.Aligned (.byIndex left right) other.token)
    (spacedTokens left) (spacedTokens right) := by
  have length : (spacedTokens left).length = (spacedTokens right).length := by
    simpa using congrArg List.length same
  refine List.forall₂_iff_get.mpr ⟨length, fun index bound also => ?_⟩
  have spelled : (spacedTokens left)[index].spelling = (spacedTokens right)[index].spelling := by
    have entry := congrArg (·[index]?) same
    simpa [bound, also] using entry
  obtain ⟨tag, text⟩ := Prod.mk.inj spelled
  refine ⟨⟨tag.symm, text.symm, index, ?_, ?_⟩, index, ?_, ?_⟩
  · simp [tokenStarts, List.getElem?_append_left, bound]
  · simp [tokenStarts, List.getElem?_append_left, also]
  · simp [tokenStops, bound]
  · simp [tokenStops, also]

theorem ends_byIndex
    (sound : ∀ spaced ∈ spacedTokens left, spaced.token.tag.isMalformed = false) :
    (Alignment.byIndex left right).starts left.utf8ByteSize right.utf8ByteSize := by
  have tags : (spacedTokens left).map (·.token.tag) = (spacedTokens right).map (·.token.tag) := by
    simpa [Function.comp_def, Spaced.spelling] using congrArg (List.map Prod.fst) same
  have length : (spacedTokens left).length = (spacedTokens right).length := by
    simpa using congrArg List.length tags
  have reached : (spacedTokens left).any (·.token.tag.isMalformed) = false := by simpa using sound
  have also : (spacedTokens right).any (·.token.tag.isMalformed) = false := by
    have mapped := congrArg (List.any · Tag.isMalformed) tags
    simpa [List.any_map, Function.comp_def, reached] using mapped.symm
  refine ⟨(spacedTokens left).length, ?_, ?_⟩
  · simp [tokenStarts, reached]
  · simp [tokenStarts, also, length]

end FragmentBounds
