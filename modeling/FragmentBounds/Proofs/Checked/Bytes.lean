import FragmentBounds.Cursor
import FragmentBounds.Lexeme.Sequence
import FragmentBounds.Proofs.Checked.Scanner
import Mathlib.Data.List.Induction

/-! ASCII characters are single bytes, and no byte of another character is
taken for one. So what is searched for in bytes is found where it is in the
text. -/
namespace FragmentBounds.Checked

open Lexeme Text

/-- The property is one of ASCII characters only. -/
def Plain (p : Char → Bool) : Prop := ∀ c, p c → c.toNat < 128

variable {p : Char → Bool} {c : Char}

section Plain

theorem plain_beq {a : Char} (low : a.toNat < 128) : Plain (· == a) := by
  intro c same
  rwa [beq_iff_eq.mp same]

theorem plain_or {p q : Char → Bool} (left : Plain p) (right : Plain q) :
    Plain fun c => p c || q c := by
  intro c holds
  rcases Bool.or_eq_true_iff.mp holds with holds | holds
  · exact left c holds
  · exact right c holds

theorem plain_range {a b : Char} (low : b.toNat < 128) : Plain fun c => decide (a ≤ c ∧ c ≤ b) := by
  intro c within
  have le : c.toNat ≤ b.toNat := UInt32.le_iff_toNat_le.mp (of_decide_eq_true within).2
  exact Nat.lt_of_le_of_lt le low

theorem plain_isDigit : Plain Char.isDigit := by
  intro c digit
  simp only [Char.isDigit, Bool.and_eq_true, decide_eq_true_eq] at digit
  have le : c.toNat ≤ '9'.toNat := UInt32.le_iff_toNat_le.mp digit.2
  exact Nat.lt_of_le_of_lt le (by decide)

theorem ne_of_le {a : Char} (high : 128 ≤ c.toNat) (low : a.toNat < 128) : c ≠ a := by
  intro same
  rw [same] at high
  omega

end Plain

theorem ascii_forall {P : Char → Prop} (all : ∀ n, n < 128 → P (Char.ofNat n)) (c : Char)
    (low : c.toNat < 128) : P c := by
  have holds := all c.toNat low
  rwa [Char.ofNat_toNat] at holds

theorem ascii_byte_forall {P : UInt8 → Prop} (all : ∀ n, n < 128 → P (UInt8.ofNat n))
    (byte : UInt8) (low : byte < 128) : P byte := by
  have holds := all byte.toNat (UInt8.lt_iff_toNat_lt.mp low)
  rwa [UInt8.ofNat_toNat] at holds

theorem encode_of_ascii (low : c.toNat < 128) : String.utf8EncodeChar c = [c.toUInt8] := by
  have size : c.utf8Size = 1 := Char.utf8Size_eq_one_iff.mpr (UInt32.le_iff_toNat_le.mpr (Nat.le_of_lt_succ low))
  exact String.utf8EncodeChar_eq_singleton size

private theorem le_or {bits mask : UInt8} (high : 128 ≤ mask) : 128 ≤ bits ||| mask := by
  rw [UInt8.le_iff_toNat_le, UInt8.toNat_or]
  exact Nat.le_trans (UInt8.le_iff_toNat_le.mp high) Nat.right_le_or

theorem le_of_mem_encode (high : 128 ≤ c.toNat) : ∀ byte ∈ String.utf8EncodeChar c, 128 ≤ byte := by
  rcases c.utf8Size_eq with size | size | size | size
  · have low := UInt32.le_iff_toNat_le.mp (Char.utf8Size_eq_one_iff.mp size)
    exact absurd low (Nat.not_le.mpr high)
  · rw [String.utf8EncodeChar_eq_cons_cons size]
    simp only [List.forall_mem_cons]
    exact ⟨le_or (by decide), le_or (by decide), by simp⟩
  · rw [String.utf8EncodeChar_eq_cons_cons_cons size]
    simp only [List.forall_mem_cons]
    exact ⟨le_or (by decide), le_or (by decide), le_or (by decide), by simp⟩
  · rw [String.utf8EncodeChar_eq_cons_cons_cons_cons size]
    simp only [List.forall_mem_cons]
    exact ⟨le_or (by decide), le_or (by decide), le_or (by decide), le_or (by decide), by simp⟩

theorem toUInt8_lt (low : c.toNat < 128) : c.toUInt8 < 128 :=
  ascii_forall (P := fun c => c.toUInt8 < 128) (by decide) c low

theorem ofNat_toUInt8 (low : c.toNat < 128) : Char.ofNat c.toUInt8.toNat = c :=
  ascii_forall (P := fun c => Char.ofNat c.toUInt8.toNat = c) (by decide) c low

theorem toNat_ofNat_lt {byte : UInt8} (low : byte < 128) : (Char.ofNat byte.toNat).toNat < 128 :=
  ascii_byte_forall (P := fun byte => (Char.ofNat byte.toNat).toNat < 128) (by decide) byte low

theorem toUInt8_ofNat {byte : UInt8} (low : byte < 128) : (Char.ofNat byte.toNat).toUInt8 = byte :=
  ascii_byte_forall (P := fun byte => (Char.ofNat byte.toNat).toUInt8 = byte) (by decide) byte low

theorem ascii_toUInt8 (p : Char → Bool) (low : c.toNat < 128) : ascii p c.toUInt8 = p c := by
  rw [ascii, ofNat_toUInt8 low]
  simp [toUInt8_lt low]

theorem ascii_of_le (p : Char → Bool) {byte : UInt8} (high : 128 ≤ byte) : ascii p byte = false := by
  rw [ascii, decide_eq_false (UInt8.not_lt.mpr high), Bool.false_and]

theorem beq_toUInt8 (low : c.toNat < 128) (byte : UInt8) :
    (byte == c.toUInt8) = ascii (· == c) byte := by
  by_cases high : 128 ≤ byte
  · rw [ascii_of_le _ high, beq_eq_false_iff_ne]
    rintro rfl
    exact absurd (toUInt8_lt low) (UInt8.not_lt.mpr high)
  · have below : byte < 128 := UInt8.not_le.mp high
    rw [Bool.eq_iff_iff, beq_iff_eq]
    constructor
    · rintro rfl
      rw [ascii_toUInt8 _ low]
      exact beq_self_eq_true c
    · intro same
      simp only [ascii, below, decide_true, Bool.true_and, beq_iff_eq] at same
      rw [← toUInt8_ofNat below, same]

theorem bytes_cons_of_ascii (low : c.toNat < 128) (text : List Char) :
    bytes (c :: text) = c.toUInt8 :: bytes text := by
  rw [bytes_cons, encode_of_ascii low]
  rfl

theorem bytes_concat (text : List Char) (c : Char) :
    bytes (text ++ [c]) = bytes text ++ String.utf8EncodeChar c := by
  rw [bytes_append, bytes_cons]
  exact congrArg _ (List.append_nil _)

theorem bytes_eq_concat (low : c.toNat < 128) {text : List Char} {front : List UInt8}
    (ends : bytes text = front ++ [c.toUInt8]) : ∃ body, text = body ++ [c] ∧ bytes body = front := by
  rcases List.eq_nil_or_concat text with rfl | ⟨body, d, rfl⟩
  · simp [bytes] at ends
  rw [List.concat_eq_append, bytes_concat] at ends
  rcases Nat.lt_or_ge d.toNat 128 with also | high
  · rw [encode_of_ascii also] at ends
    obtain ⟨before, last⟩ := List.append_inj' ends rfl
    have same : d = c := by
      rw [← ofNat_toUInt8 also, (List.cons.inj last).1, ofNat_toUInt8 low]
    exact ⟨body, by rw [List.concat_eq_append, same], before⟩
  · rcases List.eq_nil_or_concat (String.utf8EncodeChar d) with none | ⟨more, byte, encoded⟩
    · exact absurd none String.utf8EncodeChar_ne_nil
    have large := le_of_mem_encode high byte (by simp [encoded])
    rw [encoded, List.concat_eq_append, ← List.append_assoc] at ends
    rw [(List.cons.inj (List.append_inj' ends rfl).2).1] at large
    exact absurd (toUInt8_lt low) (UInt8.not_lt.mpr large)

theorem bytes_suffix_iff {tail : List Char} (low : ∀ c ∈ tail, c.toNat < 128) {text : List Char} :
    bytes tail <:+ bytes text ↔ tail <:+ text := by
  constructor
  · rintro ⟨front, ends⟩
    induction tail using List.reverseRec generalizing text with
    | nil => exact List.nil_suffix
    | append_singleton tail c ih =>
      have small := low c (by simp)
      rw [bytes_concat, encode_of_ascii small, ← List.append_assoc] at ends
      obtain ⟨body, rfl, before⟩ := bytes_eq_concat small ends.symm
      obtain ⟨ahead, rfl⟩ := ih (fun d member => low d (by simp [member])) before.symm
      exact ⟨ahead, by simp⟩
  · rintro ⟨front, rfl⟩
    exact ⟨bytes front, (bytes_append front _).symm⟩

theorem ascii_of_mem_encode (fails : p c = false) {byte : UInt8}
    (member : byte ∈ String.utf8EncodeChar c) : ascii p byte = false := by
  rcases Nat.lt_or_ge c.toNat 128 with low | high
  · rw [encode_of_ascii low, List.mem_singleton] at member
    rw [member, ascii_toUInt8 p low, fails]
  · exact ascii_of_le p (le_of_mem_encode high byte member)

theorem bytes_cons_eq (c : Char) (text : List Char) :
    ∃ byte more, bytes (c :: text) = byte :: (more ++ bytes text) ∧
      String.utf8EncodeChar c = byte :: more := by
  obtain ⟨byte, more, same⟩ := List.exists_cons_of_ne_nil (@String.utf8EncodeChar_ne_nil c)
  refine ⟨byte, more, ?_, same⟩
  rw [bytes_cons, same]
  rfl

private theorem ascii_head (fails : p c = false) (text : List Char) :
    ∃ byte more, bytes (c :: text) = byte :: more ∧ ascii p byte = false := by
  obtain ⟨byte, more, parts, same⟩ := bytes_cons_eq c text
  exact ⟨byte, _, parts, ascii_of_mem_encode fails (by simp [same])⟩

theorem takeWhile_bytes (plain : Plain p) (text : List Char) :
    (bytes text).takeWhile (ascii p) = bytes (text.takeWhile p) := by
  induction text with
  | nil => rfl
  | cons c text ih =>
    cases holds : p c with
    | true =>
      have low := plain c holds
      rw [bytes_cons_of_ascii low, List.takeWhile_cons_of_pos (by rw [ascii_toUInt8 p low, holds]),
        List.takeWhile_cons_of_pos holds, bytes_cons_of_ascii low, ih]
    | false =>
      obtain ⟨byte, more, same, fails⟩ := ascii_head holds text
      rw [same, List.takeWhile_cons_of_neg (by simp [fails]),
        List.takeWhile_cons_of_neg (by simp [holds])]
      rfl

theorem takeWhile_take_bytes (plain : Plain p) (limit : Nat) (text : List Char) :
    ((bytes text).take limit).takeWhile (ascii p) = bytes (runUpTo limit p text).1 := by
  induction limit generalizing text with
  | zero => rw [runUpTo, List.take_zero]; rfl
  | succ limit ih =>
    cases text with
    | nil => rfl
    | cons c text =>
      rw [runUpTo]
      cases holds : p c with
      | true =>
        have low := plain c holds
        rw [bytes_cons_of_ascii low, List.take_succ_cons,
          List.takeWhile_cons_of_pos (by rw [ascii_toUInt8 p low, holds]), ih, if_pos rfl,
          bytes_cons_of_ascii low]
      | false =>
        obtain ⟨byte, more, same, fails⟩ := ascii_head holds text
        rw [same, List.take_succ_cons, List.takeWhile_cons_of_neg (by simp [fails]), if_neg (by simp)]
        rfl

theorem takeWhile_not_bytes (plain : Plain p) (text : List Char) :
    (bytes text).takeWhile (fun byte => !ascii p byte) = bytes (text.takeWhile fun c => !p c) := by
  induction text with
  | nil => rfl
  | cons c text ih =>
    cases holds : p c with
    | true =>
      have low := plain c holds
      rw [bytes_cons_of_ascii low, List.takeWhile_cons_of_neg (by simp [ascii_toUInt8 p low, holds]),
        List.takeWhile_cons_of_neg (by simp [holds])]
      rfl
    | false =>
      have passes : ∀ byte ∈ String.utf8EncodeChar c, !ascii p byte := fun byte member => by
        rw [ascii_of_mem_encode holds member]
        rfl
      rw [bytes_cons, List.takeWhile_append_of_pos passes, ih,
        List.takeWhile_cons_of_pos (by simp [holds]), bytes_cons]

theorem ne_toUInt8 {a : Char} (low : a.toNat < 128) (other : c ≠ a) {byte : UInt8}
    (member : byte ∈ String.utf8EncodeChar c) : byte ≠ a.toUInt8 := by
  have fails := ascii_of_mem_encode (p := (· == a)) (beq_eq_false_iff_ne.mpr other) member
  rw [← beq_toUInt8 low byte] at fails
  exact beq_eq_false_iff_ne.mp fails

private theorem commentLength?_cons {byte : UInt8} (other : byte ≠ '*'.toUInt8) (rest : List UInt8) :
    Cursor.commentLength? (byte :: rest) = (Cursor.commentLength? rest).map (· + 1) := by
  cases rest with
  | nil => rfl
  | cons second rest => rw [Cursor.commentLength?]; simp [other]

private theorem commentLength?_append {front : List UInt8}
    (others : ∀ byte ∈ front, byte ≠ '*'.toUInt8) (rest : List UInt8) :
    Cursor.commentLength? (front ++ rest) =
      (Cursor.commentLength? rest).map (front.length + ·) := by
  induction front with
  | nil => simp
  | cons byte front ih =>
    rw [List.cons_append, commentLength?_cons (others byte (by simp)),
      ih fun other member => others other (List.mem_cons_of_mem _ member), Option.map_map]
    refine congrArg (Option.map · _) (funext fun count => ?_)
    simp only [Function.comp_apply, List.length_cons]
    omega

theorem commentLength?_bytes (text : List Char) :
    Cursor.commentLength? (bytes text) =
      (commentBody? text).map fun found => Text.byteSize found.1 := by
  fun_induction commentBody? text with
  | case1 => rfl
  | case2 rest => rfl
  | case3 c text unclosed ih =>
    have further : Cursor.commentLength? (bytes (c :: text)) =
        (Cursor.commentLength? (bytes text)).map (c.utf8Size + ·) := by
      by_cases star : c = '*'
      · subst star
        rw [bytes_cons_of_ascii (by decide)]
        cases text with
        | nil => rfl
        | cons d text =>
          have other : d ≠ '/' := fun same => unclosed text rfl (by rw [same])
          obtain ⟨byte, more, parts, same⟩ := bytes_cons_eq d text
          have differs := ne_toUInt8 (a := '/') (by decide) other (by simp [same] : byte ∈ _)
          rw [parts, Cursor.commentLength?]
          simp [differs, Nat.add_comm, show '*'.utf8Size = 1 from rfl]
      · rw [bytes_cons, commentLength?_append fun byte =>
          ne_toUInt8 (by decide) star, String.length_utf8EncodeChar]
    rw [further, ih, Option.map_map, Option.map_map]
    rfl

end FragmentBounds.Checked
