import FragmentBounds.Proofs.Checked.Moves
import FragmentBounds.Proofs.Token.Layout

/-! Where moves take a cursor. Whatever the moves are, the cursor stays in the
source and never goes back; and where they take in ASCII characters and whole
characters only, it never stops inside a character. -/
namespace FragmentBounds.Checked

inductive Move where
  | advance
  | advanceBy (count : Nat)
  | advanceChar
  | eatWhile (p : UInt8 → Bool)
  | eatUpTo (limit : Nat) (p : UInt8 → Bool)
  | eatBlanks
  | eatLine
  | eatUntil (byte : UInt8)
  | skipToDelimiter (quote : UInt8)
  | eatCommentBody

namespace Move

def apply : Move → Cursor → Cursor
  | .advance, cursor => cursor.advance
  | .advanceBy count, cursor => cursor.advanceBy count
  | .advanceChar, cursor => cursor.advanceChar
  | .eatWhile p, cursor => cursor.eatWhile p
  | .eatUpTo limit p, cursor => (cursor.eatUpTo limit p).2
  | .eatBlanks, cursor => cursor.eatBlanks
  | .eatLine, cursor => cursor.eatLine
  | .eatUntil byte, cursor => (cursor.eatUntil byte).2
  | .skipToDelimiter quote, cursor => (cursor.skipToDelimiter quote).2
  | .eatCommentBody, cursor => cursor.eatCommentBody.2

/-- The move as a machine with offsets of 32 bits makes it. -/
def run : Move → Cursor → Except Panic Cursor
  | .advance, cursor => Checked.advance cursor
  | .advanceBy count, cursor => return Checked.advanceBy count cursor
  | .advanceChar, cursor => return Checked.advanceChar cursor
  | .eatWhile p, cursor => Checked.eatWhile p cursor
  | .eatUpTo limit p, cursor => Prod.snd <$> Checked.eatUpTo limit p cursor
  | .eatBlanks, cursor => Checked.eatBlanks cursor
  | .eatLine, cursor => Checked.eatLine cursor
  | .eatUntil byte, cursor => Prod.snd <$> Checked.eatUntil byte cursor
  | .skipToDelimiter quote, cursor => Prod.snd <$> Checked.skipToDelimiter quote cursor
  | .eatCommentBody, cursor => Prod.snd <$> Checked.eatCommentBody cursor

def applyAll (moves : List Move) (cursor : Cursor) : Cursor :=
  moves.foldl (fun cursor move => move.apply cursor) cursor

def runAll (moves : List Move) (cursor : Cursor) : Except Panic Cursor :=
  moves.foldlM (fun cursor move => move.run cursor) cursor

/-- The move takes in ASCII bytes only, goes on to an ASCII byte, or passes a whole
character. -/
def KeepsCharacters : Move → Prop
  | .advance | .advanceBy _ => False
  | .eatWhile p | .eatUpTo _ p => ∀ byte, 128 ≤ byte → p byte = false
  | .eatUntil byte | .skipToDelimiter byte => byte < 128
  | .advanceChar | .eatBlanks | .eatLine | .eatCommentBody => True

end Move

/-- Where the moves take a cursor from the start of a source. -/
def reached (source : String) (moves : List Move) : Cursor := Move.applyAll moves (.ofSource source)

variable {source : String} {cursor next last : Cursor} {move : Move} {moves : List Move}

section Range

theorem Onward.trans (first : Onward cursor next) (second : Onward next last) : Onward cursor last :=
  ⟨second.same.trans first.same, Nat.le_trans first.forward second.forward,
    first.size_eq ▸ second.inside⟩

theorem Move.onward (inside : cursor.pos ≤ cursor.size) (move : Move) :
    Onward cursor (move.apply cursor) := by
  cases move with
  | advance => exact onward_advanceBy inside 1
  | advanceBy count => exact onward_advanceBy inside count
  | advanceChar => exact onward_advanceBy inside _
  | eatWhile p => exact onward_eatWhile inside p
  | eatUpTo limit p => exact onward_eatUpTo inside limit p
  | eatBlanks => exact onward_eatWhile inside _
  | eatLine => exact onward_eatWhile inside _
  | eatUntil byte => exact onward_eatWhile inside _
  | skipToDelimiter quote => exact onward_eatWhile inside _
  | eatCommentBody => exact onward_eatCommentBody inside

theorem Move.onward_applyAll (inside : cursor.pos ≤ cursor.size) (moves : List Move) :
    Onward cursor (applyAll moves cursor) := by
  induction moves generalizing cursor with
  | nil => exact ⟨rfl, Nat.le_refl _, inside⟩
  | cons move moves ih =>
    have first := move.onward inside
    exact first.trans (ih first.pos_le)

/-- In its source a machine makes the move, and no sum overflows. -/
theorem Move.run_eq (inside : cursor.pos ≤ cursor.size) (move : Move) :
    move.run cursor = .ok (move.apply cursor) := by
  cases move with
  | advance => exact advance_eq inside
  | advanceBy count => exact congrArg Except.ok (advanceBy_eq cursor count)
  | advanceChar => exact congrArg Except.ok (advanceChar_eq cursor)
  | eatWhile p => exact eatWhile_eq cursor p
  | eatUpTo limit p => exact congrArg (Prod.snd <$> ·) (eatUpTo_eq cursor limit p)
  | eatBlanks => exact eatBlanks_eq cursor
  | eatLine => exact eatLine_eq inside
  | eatUntil byte => exact congrArg (Prod.snd <$> ·) (eatUntil_eq inside byte)
  | skipToDelimiter quote => exact congrArg (Prod.snd <$> ·) (skipToDelimiter_eq inside quote)
  | eatCommentBody => exact congrArg (Prod.snd <$> ·) (eatCommentBody_eq cursor)

theorem Move.runAll_eq (inside : cursor.pos ≤ cursor.size) (moves : List Move) :
    runAll moves cursor = .ok (applyAll moves cursor) := by
  induction moves generalizing cursor with
  | nil => rfl
  | cons move moves ih =>
    rw [runAll, List.foldlM_cons, move.run_eq inside]
    exact ih (move.onward inside).pos_le

end Range

section Characters

private theorem exists_plain {p : UInt8 → Bool} (blind : ∀ byte, 128 ≤ byte → p byte = false) :
    ∃ q, Plain q ∧ ascii q = p := by
  refine ⟨fun c => decide (c.toNat < 128) && p c.toUInt8, ?_, ?_⟩
  · intro c holds
    exact of_decide_eq_true (Bool.and_eq_true_iff.mp holds).1
  · funext byte
    by_cases high : 128 ≤ byte
    · rw [ascii_of_le _ high, blind byte high]
    · have low := UInt8.not_le.mp high
      rw [ascii, decide_eq_true low, decide_eq_true (toNat_ofNat_lt low), toUInt8_ofNat low]
      rfl

private theorem exists_ascii {byte : UInt8} (low : byte < 128) :
    ∃ c : Char, c.toNat < 128 ∧ c.toUInt8 = byte := ⟨_, toNat_ofNat_lt low, toUInt8_ofNat low⟩

theorem Faces.advanceChar_nil (faces : Faces source cursor []) :
    Faces source cursor.advanceChar [] := by
  have size := faces.pos_add
  have place : min (cursor.pos + 1) cursor.size = cursor.pos := by
    rw [← size]
    exact Nat.min_eq_right (Nat.le_add_right _ _)
  refine faces.behind (List.append_nil []).symm rfl ?_
  rw [Cursor.advanceChar, faces.currentChar?_eq]
  exact place

theorem Faces.apply {text : List Char} (faces : Faces source cursor text)
    (keeps : move.KeepsCharacters) : ∃ rest, Faces source (move.apply cursor) rest := by
  cases move with
  | advance => cases keeps
  | advanceBy count => cases keeps
  | advanceChar =>
    cases text with
    | nil => exact ⟨_, faces.advanceChar_nil⟩
    | cons c rest => exact ⟨_, faces.advanceChar⟩
  | eatWhile p =>
    obtain ⟨q, plain, rfl⟩ := exists_plain keeps
    exact ⟨_, faces.eatWhile plain⟩
  | eatUpTo limit p =>
    obtain ⟨q, plain, rfl⟩ := exists_plain keeps
    exact ⟨_, faces.eatUpTo plain limit⟩
  | eatBlanks => exact ⟨_, faces.eatBlanks⟩
  | eatLine => exact ⟨_, faces.eatLine⟩
  | eatUntil byte =>
    obtain ⟨c, low, rfl⟩ := exists_ascii keeps
    exact ⟨_, faces.eatUntil low⟩
  | skipToDelimiter quote =>
    obtain ⟨c, low, rfl⟩ := exists_ascii keeps
    exact ⟨_, faces.skipToDelimiter low⟩
  | eatCommentBody => exact ⟨_, faces.eatCommentBody.2⟩

theorem Faces.applyAll {text : List Char} (faces : Faces source cursor text)
    (keep : ∀ move ∈ moves, move.KeepsCharacters) :
    ∃ rest, Faces source (Move.applyAll moves cursor) rest := by
  induction moves generalizing cursor text with
  | nil => exact ⟨text, faces⟩
  | cons move moves ih =>
    obtain ⟨rest, there⟩ := faces.apply (keep move List.mem_cons_self)
    exact ih there fun other member => keep other (List.mem_cons_of_mem _ member)

theorem Faces.isCharBoundary {text : List Char} (faces : Faces source cursor text) :
    IsCharBoundary source cursor.pos := by
  obtain ⟨front, parts, place⟩ := faces.place
  exact ⟨front, text, parts, place⟩

theorem isCharBoundary_reached (fits : source.utf8ByteSize ≤ maxOffset)
    (keep : ∀ move ∈ moves, move.KeepsCharacters) :
    IsCharBoundary source (reached source moves).pos := by
  obtain ⟨rest, there⟩ := (faces_ofSource fits).applyAll keep
  exact there.isCharBoundary

end Characters

section Slices

private theorem cut_between {front back before after : List Char}
    (same : front ++ back = before ++ after) (le : Text.byteSize front ≤ Text.byteSize before) :
    ∃ inside, before = front ++ inside := by
  rcases List.append_eq_append_iff.mp same with ⟨inside, longer, -⟩ | ⟨more, longer, -⟩
  · exact ⟨inside, longer⟩
  · rw [longer, Text.byteSize_append] at le
    obtain rfl := Text.byteSize_eq_zero.mp (show Text.byteSize more = 0 by omega)
    exact ⟨[], by rw [longer, List.append_nil, List.append_nil]⟩

/-- Between two places where characters start, a slice is all the bytes there. -/
theorem sliceFrom_of_boundary {start : Nat} (same : cursor.source = source)
    (starts : IsCharBoundary source start) (stops : IsCharBoundary source cursor.pos)
    (le : start ≤ cursor.pos) :
    ∃ text, cursor.sliceFrom start = .ok text ∧
      Text.bytes text.toList = (Text.bytes source.toList).extract start cursor.pos := by
  subst same
  obtain ⟨front, back, parts, rfl⟩ := starts
  obtain ⟨before, after, whole, place⟩ := stops
  rw [← place] at le
  obtain ⟨inside, rfl⟩ := cut_between (parts.symm.trans whole) le
  rw [Text.byteSize_append] at place
  refine ⟨String.ofList inside, ?_, ?_⟩
  · rw [Cursor.sliceFrom, Cursor.slice, if_neg (by omega), ← place, whole, Text.sliceBytes?_append]
    rfl
  · have bytes : Text.bytes cursor.source.toList =
        Text.bytes front ++ (Text.bytes inside ++ Text.bytes after) := by
      rw [whole, Text.bytes_append, Text.bytes_append, List.append_assoc]
    rw [String.toList_ofList, bytes, ← place, ← Text.length_bytes front, ← Text.length_bytes inside,
      List.extract, List.drop_left, Nat.add_sub_cancel_left, List.take_left]

end Slices

/-- From the start of a source that offsets reach, a machine makes any moves
without a panic, stays in the source and never goes back. Moves that keep
characters stop between characters only, and what lies behind any earlier place
is given back byte for byte. -/
theorem moves_in_source {source : String} (fits : source.utf8ByteSize ≤ maxOffset) :
    (∀ moves, Move.runAll moves (.ofSource source) = .ok (reached source moves)) ∧
    (∀ moves, (reached source moves).pos ≤ (reached source moves).size) ∧
    ∀ before after, (reached source before).pos ≤ (reached source (before ++ after)).pos ∧
      ((∀ move ∈ before ++ after, move.KeepsCharacters) →
        IsCharBoundary source (reached source (before ++ after)).pos ∧
        ∃ text, (reached source (before ++ after)).sliceFrom (reached source before).pos = .ok text ∧
          Text.bytes text.toList = (Text.bytes source.toList).extract (reached source before).pos
            (reached source (before ++ after)).pos) := by
  have onward (moves : List Move) : Onward (.ofSource source) (reached source moves) :=
    Move.onward_applyAll (Nat.zero_le _) moves
  refine ⟨Move.runAll_eq (Nat.zero_le _), fun moves => (onward moves).pos_le, fun before after => ?_⟩
  have further : reached source (before ++ after) = Move.applyAll after (reached source before) :=
    List.foldl_append
  have le : (reached source before).pos ≤ (reached source (before ++ after)).pos := by
    rw [further]
    exact (Move.onward_applyAll (onward before).pos_le after).forward
  refine ⟨le, fun keep => ?_⟩
  have starts := isCharBoundary_reached fits fun move member =>
    keep move (List.mem_append_left after member)
  have stops := isCharBoundary_reached fits keep
  exact ⟨stops, sliceFrom_of_boundary (onward (before ++ after)).same starts stops le⟩

/-- Over a comment and into a string that has no end, past characters of two
bytes. -/
theorem moves_in_source_comment : "é /*λ*/\"π\\".utf8ByteSize ≤ maxOffset ∧
    Move.runAll [.advanceChar, .eatBlanks, .advanceChar, .advanceChar, .eatCommentBody,
      .eatWhile (· == 34), .skipToDelimiter 34] (.ofSource "é /*λ*/\"π\\") =
        .ok ⟨"é /*λ*/\"π\\", 12⟩ ∧
    IsCharBoundary "é /*λ*/\"π\\" 12 ∧
    ∃ text, (Cursor.mk "é /*λ*/\"π\\" 12).sliceFrom 5 = .ok text ∧
      Text.bytes text.toList = (Text.bytes "é /*λ*/\"π\\".toList).extract 5 12 := by
  have fits : "é /*λ*/\"π\\".utf8ByteSize ≤ maxOffset := by decide
  obtain ⟨runs, -, places⟩ := moves_in_source fits
  have there : reached "é /*λ*/\"π\\" [.advanceChar, .eatBlanks, .advanceChar, .advanceChar] =
      ⟨"é /*λ*/\"π\\", 5⟩ := by decide +kernel
  have here : reached "é /*λ*/\"π\\" ([.advanceChar, .eatBlanks, .advanceChar, .advanceChar] ++
      [.eatCommentBody, .eatWhile (· == 34), .skipToDelimiter 34]) = ⟨"é /*λ*/\"π\\", 12⟩ := by
    decide +kernel
  have quote (byte : UInt8) (high : 128 ≤ byte) : (byte == 34) = false := by
    rw [beq_eq_false_iff_ne]
    rintro rfl
    exact absurd high (by decide)
  obtain ⟨-, kept⟩ := places [.advanceChar, .eatBlanks, .advanceChar, .advanceChar]
    [.eatCommentBody, .eatWhile (· == 34), .skipToDelimiter 34]
  rw [there, here] at kept
  refine ⟨fits, (runs _).trans (congrArg Except.ok here), kept ?_⟩
  simp only [List.cons_append, List.nil_append, List.forall_mem_cons, Move.KeepsCharacters]
  exact ⟨trivial, trivial, trivial, trivial, trivial, quote, by decide, by simp⟩

-- Moves by bytes do stop inside characters.
example : ¬ IsCharBoundary "é" (reached "é" [.advance]).pos := by decide +kernel

end FragmentBounds.Checked
