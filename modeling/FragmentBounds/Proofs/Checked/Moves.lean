import FragmentBounds.Proofs.Checked.Facing
import Mathlib.Data.List.Infix
import Mathlib.Data.List.TakeWhile

/-! The moves of a cursor as a machine with offsets of 32 bits makes them. It goes
on byte by byte while it looks, or searches the bytes that are left and jumps;
some of its sums stop at the largest offset or at the end of the source, and
others rely on being in range. -/
namespace FragmentBounds.Checked

/-- What 32 bits keep of a number. -/
def narrow (number : Nat) : Nat := number % (maxOffset + 1)

def addSaturating (left right : Nat) : Nat := min (left + right) maxOffset

def byteAt (cursor : Cursor) (pos : Nat) : UInt8 :=
  if cursor.size ≤ pos then 0 else (Text.bytes cursor.source.toList)[pos]?.getD 0

def forward (count : Nat) (cursor : Cursor) : Except Panic Cursor := do
  return { cursor with pos := ← add cursor.pos count }

def atEnd (cursor : Cursor) : Cursor := { cursor with pos := cursor.size }

section Steps

def advance (cursor : Cursor) : Except Panic Cursor :=
  if cursor.pos < cursor.size then forward 1 cursor else return cursor

def advanceBy (count : Nat) (cursor : Cursor) : Cursor :=
  { cursor with pos := min (addSaturating cursor.pos count) cursor.size }

def advanceChar (cursor : Cursor) : Cursor :=
  advanceBy ((cursor.currentChar?.map Char.utf8Size).getD 1) cursor

end Steps

section Loops

def sees (p : UInt8 → Bool) (cursor : Cursor) : Bool :=
  cursor.pos < cursor.size && p (byteAt cursor cursor.pos)

def eatRound (p : UInt8 → Bool) (cursor : Cursor) (_ : Unit) :
    Except Panic (Step (Cursor × Unit) Cursor) := do
  if sees p cursor then return .more (← forward 1 cursor, ()) else return .done cursor

def eatWhile (p : UInt8 → Bool) (cursor : Cursor) : Except Panic Cursor := loop (eatRound p) cursor ()

def eatUpToRound (limit : Nat) (p : UInt8 → Bool) (cursor : Cursor) (count : Nat) :
    Except Panic (Step (Cursor × Nat) (Nat × Cursor)) := do
  if count < limit && sees p cursor then
    let next ← forward 1 cursor
    return .more (next, ← add count 1)
  else return .done (count, cursor)

def eatUpTo (limit : Nat) (p : UInt8 → Bool) (cursor : Cursor) : Except Panic (Nat × Cursor) :=
  loop (eatUpToRound limit p) cursor 0

def eatBlanks : Cursor → Except Panic Cursor :=
  eatWhile fun byte => byte == ' '.toUInt8 || byte == '\t'.toUInt8

end Loops

section Searches

/-- Moves to the first byte that satisfies `p`, or else to the end, and says
whether there is one. -/
def seek (p : UInt8 → Bool) (cursor : Cursor) : Except Panic (Bool × Cursor) :=
  match cursor.rest.findIdx? p with
  | some offset => do return (true, ← forward (narrow offset) cursor)
  | none => return (false, atEnd cursor)

def eatLine (cursor : Cursor) : Except Panic Cursor := do
  let (_, there) ← seek (· == '\n'.toUInt8) cursor
  return there

def delimits (quote byte : UInt8) : Bool :=
  byte == quote || byte == '\\'.toUInt8 || byte == '\n'.toUInt8

def skipToDelimiter (quote : UInt8) (cursor : Cursor) : Except Panic (UInt8 × Cursor) := do
  let (found, there) ← seek (delimits quote) cursor
  return (if found then byteAt there there.pos else 0, there)

def eatUntil (byte : UInt8) (cursor : Cursor) : Except Panic (Nat × Cursor) := do
  let (_, there) ← seek (· == byte) cursor
  return (← sub there.pos cursor.pos, there)

def commentMark : List UInt8 := ['*'.toUInt8, '/'.toUInt8]

def eatCommentBody (cursor : Cursor) : Except Panic (Bool × Cursor) :=
  match cursor.rest.tails.findIdx? commentMark.isPrefixOf with
  | some offset => do return (true, ← forward (← add (narrow offset) 2) cursor)
  | none => return (false, atEnd cursor)

end Searches

structure Onward (cursor next : Cursor) : Prop where
  same : next.source = cursor.source
  forward : cursor.pos ≤ next.pos
  inside : next.pos ≤ cursor.size

variable {cursor next : Cursor} {p : UInt8 → Bool}

theorem Onward.size_eq (onward : Onward cursor next) : next.size = cursor.size := by
  rw [Cursor.size, onward.same, Cursor.size]

theorem Onward.pos_le (onward : Onward cursor next) : next.pos ≤ next.size := by
  rw [onward.size_eq]
  exact onward.inside

theorem Onward.of_count {count : Nat} (within : cursor.pos + count ≤ cursor.size) :
    Onward cursor { cursor with pos := cursor.pos + count } :=
  ⟨rfl, Nat.le_add_right _ _, within⟩

section Rest

theorem rest_of_size_le (ended : cursor.size ≤ cursor.pos) : cursor.rest = [] := by
  rw [← List.length_eq_zero_iff, cursor.length_rest]
  omega

theorem rest_of_lt (more : cursor.pos < cursor.size) :
    cursor.rest = byteAt cursor cursor.pos :: Cursor.rest { cursor with pos := cursor.pos + 1 } := by
  have bound : cursor.pos < (Text.bytes cursor.source.toList).length := by
    rw [Text.length_bytes, Text.byteSize_toList]
    exact Nat.lt_of_lt_of_le more (Nat.min_le_left _ _)
  have inside : cursor.pos < ((Text.bytes cursor.source.toList).take cursor.size).length := by
    rw [List.length_take]
    exact Nat.lt_min.mpr ⟨more, bound⟩
  rw [byteAt, if_neg (Nat.not_le.mpr more), List.getElem?_eq_getElem bound, Option.getD_some,
    Cursor.rest, List.drop_eq_getElem_cons inside, List.getElem_take]
  rfl

theorem rest_eatWhile (cursor : Cursor) (p : UInt8 → Bool) :
    (cursor.eatWhile p).rest = cursor.rest.dropWhile p := by
  have parts := List.takeWhile_append_dropWhile (p := p) (l := cursor.rest)
  calc (cursor.eatWhile p).rest
      = cursor.rest.drop (cursor.rest.takeWhile p).length := List.drop_drop.symm
    _ = (cursor.rest.takeWhile p ++ cursor.rest.dropWhile p).drop (cursor.rest.takeWhile p).length := by
        rw [parts]
    _ = cursor.rest.dropWhile p := List.drop_left

section Rounds

variable {byte : UInt8} {limit : Nat}

theorem eatWhile_of_rest (rest : cursor.rest = byte :: Cursor.rest { cursor with pos := cursor.pos + 1 })
    (holds : p byte = true) :
    cursor.eatWhile p = Cursor.eatWhile { cursor with pos := cursor.pos + 1 } p := by
  rw [Cursor.eatWhile, Cursor.eatWhile, rest, List.takeWhile_cons_of_pos holds, List.length_cons,
    Nat.add_assoc, Nat.add_comm 1]

theorem eatUpTo_of_rest (rest : cursor.rest = byte :: Cursor.rest { cursor with pos := cursor.pos + 1 })
    (holds : p byte = true) : cursor.eatUpTo (limit + 1) p =
      ((Cursor.eatUpTo { cursor with pos := cursor.pos + 1 } limit p).1 + 1,
        (Cursor.eatUpTo { cursor with pos := cursor.pos + 1 } limit p).2) := by
  rw [Cursor.eatUpTo, Cursor.eatUpTo, rest, List.take_succ_cons, List.takeWhile_cons_of_pos holds,
    List.length_cons]
  simp only [Nat.add_assoc, Nat.add_comm 1]

private theorem takeWhile_eq_nil {bytes : List UInt8} (stops : ∀ byte ∈ bytes.head?, p byte = false) :
    bytes.takeWhile p = [] := by
  cases bytes with
  | nil => rfl
  | cons byte bytes => rw [List.takeWhile_cons_of_neg (by simp [stops byte rfl])]

theorem eatWhile_of_stop (stops : ∀ byte ∈ cursor.rest.head?, p byte = false) :
    cursor.eatWhile p = cursor := by
  rw [Cursor.eatWhile, takeWhile_eq_nil stops]
  rfl

theorem eatUpTo_of_stop (stops : ∀ byte ∈ (cursor.rest.take limit).head?, p byte = false) :
    cursor.eatUpTo limit p = (0, cursor) := by
  rw [Cursor.eatUpTo, takeWhile_eq_nil stops]
  rfl

end Rounds

private theorem commentMark_isPrefixOf (first second : UInt8) (bytes : List UInt8) :
    commentMark.isPrefixOf (first :: second :: bytes) =
      (first == '*'.toUInt8 && second == '/'.toUInt8) := by
  rw [commentMark, List.isPrefixOf_cons_cons, List.isPrefixOf_cons_cons, List.isPrefixOf_nil_left,
    Bool.and_true, BEq.comm, BEq.comm (a := '/'.toUInt8)]

private theorem commentMark_isPrefixOf_singleton (byte : UInt8) :
    commentMark.isPrefixOf [byte] = false := by
  rw [commentMark, List.isPrefixOf_cons_cons, List.isPrefixOf_cons_nil, Bool.and_false]

theorem commentLength?_eq (bytes : List UInt8) : Cursor.commentLength? bytes =
    (bytes.tails.findIdx? commentMark.isPrefixOf).map (· + 2) := by
  fun_induction Cursor.commentLength? bytes with
  | case1 first second bytes closes =>
    rw [List.tails_cons, List.findIdx?_cons, commentMark_isPrefixOf, if_pos closes]
    rfl
  | case2 first second bytes further ih =>
    rw [List.tails_cons, List.findIdx?_cons, commentMark_isPrefixOf, if_neg further, ih,
      Option.map_map, Option.map_map]
    rfl
  | case3 bytes short =>
    rcases bytes with _ | ⟨first, _ | ⟨second, bytes⟩⟩
    · rfl
    · rw [List.tails_cons, List.findIdx?_cons, commentMark_isPrefixOf_singleton]
      rfl
    · exact absurd rfl (short first second bytes)

theorem commentLength?_le {bytes : List UInt8} {count : Nat}
    (found : Cursor.commentLength? bytes = some count) : count ≤ bytes.length := by
  fun_induction Cursor.commentLength? bytes generalizing count with
  | case1 first second bytes closes =>
    cases found
    exact Nat.le_add_left 2 bytes.length
  | case2 first second bytes further ih =>
    obtain ⟨less, inner, rfl⟩ := Option.map_eq_some_iff.mp found
    exact Nat.succ_le_succ (ih inner)
  | case3 => cases found

end Rest

section Onward

variable (inside : cursor.pos ≤ cursor.size)
include inside

theorem onward_advanceBy (count : Nat) : Onward cursor (cursor.advanceBy count) := by
  refine ⟨rfl, ?_, Nat.min_le_right _ _⟩
  exact Nat.le_min.mpr ⟨Nat.le_add_right _ _, inside⟩

theorem onward_eatWhile (p : UInt8 → Bool) : Onward cursor (cursor.eatWhile p) := by
  have short := (List.takeWhile_prefix p (l := cursor.rest)).length_le
  have length := cursor.length_rest
  exact .of_count (by omega)

theorem onward_eatUpTo (limit : Nat) (p : UInt8 → Bool) :
    Onward cursor (cursor.eatUpTo limit p).2 := by
  have short := (List.takeWhile_prefix p (l := cursor.rest.take limit)).length_le
  have shorter := (List.take_prefix limit cursor.rest).length_le
  have length := cursor.length_rest
  exact .of_count (by omega)

theorem onward_eatCommentBody : Onward cursor cursor.eatCommentBody.2 := by
  rw [Cursor.eatCommentBody]
  split
  · next count found =>
    have short := commentLength?_le found
    have length := cursor.length_rest
    exact .of_count (by omega)
  · exact ⟨rfl, inside, Nat.le_refl _⟩

end Onward

section Agreement

theorem byteAt_eq (cursor : Cursor) : byteAt cursor cursor.pos = cursor.current := by
  rw [Cursor.current, Cursor.peek, List.drop_zero]
  rcases Nat.lt_or_ge cursor.pos cursor.size with more | ended
  · rw [rest_of_lt more]
    rfl
  · rw [rest_of_size_le ended, byteAt, if_pos ended]
    rfl

theorem forward_eq {count : Nat} (within : cursor.pos + count ≤ cursor.size) :
    forward count cursor = .ok { cursor with pos := cursor.pos + count } := by
  apply Returns.eq_ok
  exact .add (Nat.le_trans within cursor.size_le) (.pure rfl)

theorem narrow_eq (cursor : Cursor) {count : Nat} (within : count ≤ cursor.size) :
    narrow count = count :=
  Nat.mod_eq_of_lt (Nat.lt_succ_of_le (Nat.le_trans within cursor.size_le))

section Steps

theorem advance_eq (inside : cursor.pos ≤ cursor.size) : advance cursor = .ok cursor.advance := by
  rw [advance, Cursor.advance, Cursor.advanceBy]
  split
  · next more => rw [forward_eq more, Nat.min_eq_left more]
  · next ended =>
    have place : min (cursor.pos + 1) cursor.size = cursor.pos := by omega
    rw [place]
    rfl

theorem advanceBy_eq (cursor : Cursor) (count : Nat) :
    advanceBy count cursor = cursor.advanceBy count := by
  have fits := cursor.size_le
  have place : min (min (cursor.pos + count) maxOffset) cursor.size =
      min (cursor.pos + count) cursor.size := by omega
  rw [advanceBy, addSaturating, place]
  rfl

theorem advanceChar_eq (cursor : Cursor) : advanceChar cursor = cursor.advanceChar :=
  advanceBy_eq cursor _

end Steps

section Loops

theorem sees_cases (cursor : Cursor) (p : UInt8 → Bool) :
    (sees p cursor = true ∧ ∃ byte, p byte = true ∧ cursor.pos + 1 ≤ cursor.size ∧
      cursor.rest = byte :: Cursor.rest { cursor with pos := cursor.pos + 1 }) ∨
    (sees p cursor = false ∧ ∀ byte ∈ cursor.rest.head?, p byte = false) := by
  rw [sees]
  rcases Nat.lt_or_ge cursor.pos cursor.size with more | ended
  · rw [decide_eq_true more, Bool.true_and]
    cases holds : p (byteAt cursor cursor.pos) with
    | true => exact .inl ⟨rfl, _, holds, more, rest_of_lt more⟩
    | false =>
      refine .inr ⟨rfl, fun byte first => ?_⟩
      rw [rest_of_lt more] at first
      rwa [← Option.some.inj first]
  · rw [decide_eq_false (Nat.not_lt.mpr ended), Bool.false_and, rest_of_size_le ended]
    exact .inr ⟨rfl, nofun⟩

theorem eatWhile_eq (cursor : Cursor) (p : UInt8 → Bool) :
    eatWhile p cursor = .ok (cursor.eatWhile p) := by
  apply Returns.eq_ok
  refine returns_loop (I := fun next _ => next.eatWhile p = cursor.eatWhile p) ?_ rfl
  rintro next - target
  rcases sees_cases next p with ⟨sees, byte, holds, more, rest⟩ | ⟨blind, stops⟩
  · rw [eatRound, if_pos sees, forward_eq more]
    refine .pure ⟨?_, ?_⟩
    · rw [← target, eatWhile_of_rest rest holds]
    · exact Nat.sub_lt_sub_left more (Nat.lt_succ_self _)
  · rw [eatRound, if_neg (by simp [blind]), ← target, eatWhile_of_stop stops]
    exact .pure rfl

theorem eatUpTo_eq (cursor : Cursor) (limit : Nat) (p : UInt8 → Bool) :
    eatUpTo limit p cursor = .ok (cursor.eatUpTo limit p) := by
  apply Returns.eq_ok
  -- No more bytes are counted than the position has passed, so the count stays in range with it.
  refine returns_loop (I := fun next count => count ≤ next.pos ∧
    (count + (next.eatUpTo (limit - count) p).1, (next.eatUpTo (limit - count) p).2) =
      cursor.eatUpTo limit p) ?_ ⟨Nat.zero_le _, by simp⟩
  rintro next count ⟨passed, target⟩
  have fits := next.size_le
  have stop (halts : (count < limit && sees p next) = false)
      (none : ∀ byte ∈ (next.rest.take (limit - count)).head?, p byte = false) :
      eatUpToRound limit p next count = .ok (.done (cursor.eatUpTo limit p)) := by
    rw [eatUpToRound, if_neg (by simp [halts]), ← target, eatUpTo_of_stop none]
    rfl
  rcases Nat.lt_or_ge count limit with room | full
  · obtain ⟨left, same⟩ : ∃ left, limit - count = left + 1 := ⟨limit - count - 1, by omega⟩
    have after : limit - (count + 1) = left := by omega
    rcases sees_cases next p with ⟨sees, byte, holds, more, rest⟩ | ⟨blind, stops⟩
    · rw [eatUpToRound, if_pos (by simp [room, sees]), forward_eq more]
      refine .add (by omega) (.pure ⟨⟨?_, ?_⟩, ?_⟩)
      · exact Nat.succ_le_succ passed
      · rw [← target, same, after, eatUpTo_of_rest rest holds, Nat.add_right_comm, Nat.add_assoc]
      · exact Nat.sub_lt_sub_left more (Nat.lt_succ_self _)
    · have none : ∀ byte ∈ (next.rest.take (limit - count)).head?, p byte = false := by
        rwa [same, List.head?_take, if_neg (Nat.succ_ne_zero left)]
      rw [stop (by simp [blind]) none]
      exact .pure rfl
  · have none : ∀ byte ∈ (next.rest.take (limit - count)).head?, p byte = false := by
      rw [Nat.sub_eq_zero_of_le full, List.take_zero]
      exact nofun
    rw [stop (by simp [Nat.not_lt.mpr full]) none]
    exact .pure rfl

theorem eatBlanks_eq (cursor : Cursor) : eatBlanks cursor = .ok cursor.eatBlanks :=
  eatWhile_eq cursor _

end Loops

section Searches

theorem byteAt_eatWhile_not (cursor : Cursor) (p : UInt8 → Bool) :
    (if cursor.rest.any p then
      byteAt (cursor.eatWhile fun byte => !p byte) (cursor.eatWhile fun byte => !p byte).pos else 0) =
      (cursor.eatWhile fun byte => !p byte).current := by
  rw [byteAt_eq]
  split
  · rfl
  · next absent =>
    have ended : cursor.rest.dropWhile (fun byte => !p byte) = [] :=
      List.dropWhile_eq_nil_iff.mpr (by simpa using absent)
    rw [Cursor.current, Cursor.peek, rest_eatWhile, ended]
    rfl

theorem eatCommentBody_eq (cursor : Cursor) :
    eatCommentBody cursor = .ok cursor.eatCommentBody := by
  rw [eatCommentBody, Cursor.eatCommentBody, commentLength?_eq]
  cases found : cursor.rest.tails.findIdx? commentMark.isPrefixOf with
  | some offset =>
    have length := cursor.length_rest
    have short : offset + 2 ≤ cursor.rest.length := by
      apply commentLength?_le
      rw [commentLength?_eq, found, Option.map_some]
    have fits := cursor.size_le
    have kept : narrow offset = offset := narrow_eq cursor (by omega)
    simp only [Option.map_some]
    rw [kept]
    apply Returns.eq_ok
    refine .add (by omega) ?_
    rw [forward_eq (by omega)]
    exact .pure rfl
  | none => rfl

variable (inside : cursor.pos ≤ cursor.size)
include inside

theorem seek_eq (p : UInt8 → Bool) :
    seek p cursor = .ok (cursor.rest.any p, cursor.eatWhile fun byte => !p byte) := by
  rw [seek, Cursor.eatWhile, List.takeWhile_eq_take_findIdx_not]
  simp only [Bool.not_not]
  have length := cursor.length_rest
  cases found : cursor.rest.findIdx? p with
  | some offset =>
    obtain ⟨bound, place⟩ := List.findIdx?_eq_some_iff_findIdx_eq.mp found
    have any : cursor.rest.any p = true := by
      obtain ⟨bound, holds, -⟩ := List.findIdx?_eq_some_iff_getElem.mp found
      exact List.any_eq_true.mpr ⟨_, List.getElem_mem bound, holds⟩
    have kept : narrow offset = offset := narrow_eq cursor (by omega)
    rw [place, List.length_take_of_le (Nat.le_of_lt bound), any]
    simp only
    rw [kept, forward_eq (by omega)]
    rfl
  | none =>
    have others := List.findIdx?_eq_none_iff.mp found
    have any : cursor.rest.any p = false := by
      rw [List.any_eq_false]
      intro byte member
      simp [others byte member]
    have all : cursor.rest.findIdx p = cursor.rest.length := List.findIdx_eq_length.mpr others
    rw [all, List.take_length, any, atEnd, length, Nat.add_sub_cancel' inside]
    rfl

theorem eatLine_eq : eatLine cursor = .ok cursor.eatLine := by
  rw [eatLine, seek_eq inside]
  rfl

theorem eatUntil_eq (byte : UInt8) : eatUntil byte cursor = .ok (cursor.eatUntil byte) := by
  rw [eatUntil, seek_eq inside]
  apply Returns.eq_ok
  exact .sub (Nat.le_add_right _ _) (.pure rfl)

theorem skipToDelimiter_eq (quote : UInt8) :
    skipToDelimiter quote cursor = .ok (cursor.skipToDelimiter quote) := by
  have others : (fun byte => !delimits quote byte) =
      fun byte => byte != quote && byte != '\\'.toUInt8 && byte != '\n'.toUInt8 := by
    funext byte
    simp only [delimits, bne, Bool.not_or]
  rw [skipToDelimiter, seek_eq inside, Cursor.skipToDelimiter, ← others, ← byteAt_eatWhile_not]
  rfl

end Searches

end Agreement

end FragmentBounds.Checked
