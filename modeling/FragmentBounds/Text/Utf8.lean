/-! Texts measured and cut in UTF-8 bytes. A cut is defined only where a
character starts, so cutting never splits one. -/
namespace FragmentBounds.Text

def byteSize : List Char → Nat
  | [] => 0
  | c :: text => c.utf8Size + byteSize text

def bytes (text : List Char) : List UInt8 := text.flatMap String.utf8EncodeChar

/-- The first `count` bytes of a text and what follows them. There are none
when the text is shorter or `count` falls inside a character. -/
def splitBytes? : (count : Nat) → List Char → Option (List Char × List Char)
  | 0, text => some ([], text)
  | _ + 1, [] => none
  | count + 1, c :: text =>
    if c.utf8Size ≤ count + 1 then
      (splitBytes? (count + 1 - c.utf8Size) text).map fun (before, after) => (c :: before, after)
    else none

def sliceBytes? (start stop : Nat) (text : List Char) : Option (List Char) :=
  if stop < start then none else do
    let (_, after) ← splitBytes? start text
    let (inside, _) ← splitBytes? (stop - start) after
    return inside

/-- The characters a text holds after its first `count` bytes, preceded by the
number of bytes that are left of a character `count` falls inside. -/
def resume : (count : Nat) → List Char → Nat × List Char
  | 0, text => (0, text)
  | _ + 1, [] => (0, [])
  | count + 1, c :: text =>
    if c.utf8Size ≤ count + 1 then resume (count + 1 - c.utf8Size) text
    else (c.utf8Size - (count + 1), text)

@[simp] theorem byteSize_nil : byteSize [] = 0 := rfl

@[simp] theorem byteSize_cons (c : Char) (text : List Char) :
    byteSize (c :: text) = c.utf8Size + byteSize text := rfl

@[simp] theorem byteSize_append (before after : List Char) :
    byteSize (before ++ after) = byteSize before + byteSize after := by
  induction before with
  | nil => simp
  | cons c before ih => simp [ih, Nat.add_assoc]

theorem byteSize_eq_zero {text : List Char} : byteSize text = 0 ↔ text = [] := by
  cases text with
  | nil => simp
  | cons c text => simp [Nat.ne_of_gt c.utf8Size_pos]

@[simp] theorem length_bytes (text : List Char) : (bytes text).length = byteSize text := by
  induction text with
  | nil => rfl
  | cons c text ih => simpa [bytes] using ih

theorem bytes_cons (c : Char) (text : List Char) :
    bytes (c :: text) = String.utf8EncodeChar c ++ bytes text := List.flatMap_cons

theorem bytes_append (before after : List Char) :
    bytes (before ++ after) = bytes before ++ bytes after := List.flatMap_append

theorem byteSize_toList (source : String) : byteSize source.toList = source.utf8ByteSize := by
  induction source using String.push_induction with
  | empty => rfl
  | push before c ih => simp [String.utf8ByteSize_push, ih]

theorem splitBytes?_eq_some {count : Nat} {text before after : List Char} :
    splitBytes? count text = some (before, after) ↔
      text = before ++ after ∧ byteSize before = count := by
  fun_induction splitBytes? count text generalizing before with
  | case1 text =>
    constructor
    · intro same
      cases same
      simp
    · rintro ⟨rfl, empty⟩
      simp [byteSize_eq_zero.mp empty]
  | case2 count =>
    constructor
    · nofun
    · rintro ⟨same, size⟩
      obtain ⟨rfl, -⟩ := List.append_eq_nil_iff.mp same.symm
      simp at size
  | case3 count c text fits ih =>
    constructor
    · intro same
      obtain ⟨⟨inner, rest⟩, cut, same⟩ := Option.map_eq_some_iff.mp same
      cases same
      obtain ⟨rfl, size⟩ := ih.mp cut
      exact ⟨rfl, by rw [byteSize_cons, size]; omega⟩
    · rintro ⟨same, size⟩
      cases before with
      | nil => simp at size
      | cons d before =>
        cases same
        rw [Option.map_eq_some_iff]
        exact ⟨(before, after), ih.mpr ⟨rfl, by rw [byteSize_cons] at size; omega⟩, rfl⟩
  | case4 count c text wide =>
    constructor
    · nofun
    · rintro ⟨same, size⟩
      cases before with
      | nil => simp at size
      | cons d before =>
        cases same
        rw [byteSize_cons] at size
        omega

theorem splitBytes?_append (before after : List Char) :
    splitBytes? (byteSize before) (before ++ after) = some (before, after) :=
  splitBytes?_eq_some.mpr ⟨rfl, rfl⟩

theorem sliceBytes?_append (before inside after : List Char) :
    sliceBytes? (byteSize before) (byteSize before + byteSize inside) (before ++ inside ++ after) =
      some inside := by
  have forward : ¬ byteSize before + byteSize inside < byteSize before := by omega
  simp [sliceBytes?, forward, List.append_assoc, splitBytes?_append]

theorem sliceBytes?_eq_some {start stop : Nat} {text inside : List Char} :
    sliceBytes? start stop text = some inside ↔ ∃ before after,
      text = before ++ inside ++ after ∧ byteSize before = start ∧ start + byteSize inside = stop := by
  constructor
  · intro same
    unfold sliceBytes? at same
    split at same
    · cases same
    · obtain ⟨⟨before, rest⟩, first, same⟩ := Option.bind_eq_some_iff.mp same
      obtain ⟨⟨middle, after⟩, second, same⟩ := Option.bind_eq_some_iff.mp same
      cases same
      obtain ⟨rfl, starts⟩ := splitBytes?_eq_some.mp first
      obtain ⟨rfl, size⟩ := splitBytes?_eq_some.mp second
      exact ⟨before, after, by simp, starts, by omega⟩
  · rintro ⟨before, after, rfl, rfl, rfl⟩
    exact sliceBytes?_append before inside after

theorem resume_append (before after : List Char) :
    resume (byteSize before) (before ++ after) = (0, after) := by
  induction before with
  | nil => simp [resume]
  | cons c before ih =>
    have positive := c.utf8Size_pos
    obtain ⟨count, same⟩ : ∃ count, byteSize (c :: before) = count + 1 :=
      ⟨byteSize (c :: before) - 1, by rw [byteSize_cons]; omega⟩
    rw [same, List.cons_append, resume, if_pos (by rw [byteSize_cons] at same; omega)]
    rw [show count + 1 - c.utf8Size = byteSize before by rw [byteSize_cons] at same; omega]
    exact ih

end FragmentBounds.Text
