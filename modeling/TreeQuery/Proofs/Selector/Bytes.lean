import TreeQuery.Text.Ascii

/-!
# The bytes of a text

In UTF-8 an ASCII character is one byte, its own number, and every byte of any other character is 0x80 or
more. So a byte that looks like an ASCII character is one, wherever it is found, and the offset of it and the
one behind it are offsets of characters.
-/

namespace TreeQuery.Text

/-- The bytes of a text in UTF-8. -/
def bytes (text : List Char) : List UInt8 := text.flatMap String.utf8EncodeChar

/-- A text cut in two at a number of bytes. A text is only cut between characters, or at one of its ends. -/
def cut? : Nat → List Char → Option (List Char × List Char)
  | 0, text => some ([], text)
  | _ + 1, [] => none
  | offset + 1, c :: rest =>
    if c.utf8Size ≤ offset + 1 then
      (cut? (offset + 1 - c.utf8Size) rest).map fun (front, back) => (c :: front, back)
    else none
termination_by structural _ text => text

/-- Whether a byte is by itself an ASCII character of a class. -/
def isByteOf (p : Char → Bool) (b : UInt8) : Bool := decide (b < 0x80) && p (.ofUInt8 b)

/-- A class of ASCII characters. -/
def OnlyAscii (p : Char → Bool) : Prop := ∀ c, p c = true → c.utf8Size = 1

section

variable {c mark : Char} {b : UInt8}

@[simp] theorem bytes_nil : bytes [] = [] := rfl

theorem bytes_cons (c : Char) (text : List Char) : bytes (c :: text) = String.utf8EncodeChar c ++ bytes text :=
  rfl

theorem bytes_append (first second : List Char) : bytes (first ++ second) = bytes first ++ bytes second :=
  List.flatMap_append

/-- There are as many bytes as a text takes. -/
theorem length_bytes (text : List Char) : (bytes text).length = byteLength text := by
  induction text with
  | nil => rfl
  | cons c rest ih =>
    rw [bytes_cons, List.length_append, String.length_utf8EncodeChar, ih, byteLength_cons]

/-- Every character takes a byte at least. -/
theorem length_le_byteLength (text : List Char) : text.length ≤ byteLength text := by
  induction text with
  | nil => exact Nat.le_refl 0
  | cons c rest ih =>
    have hpos := c.utf8Size_pos
    rw [List.length_cons, byteLength_cons]
    omega

/-- A text is cut between its first characters and the others where the first take as many bytes. -/
theorem cut?_eq_some_iff {offset : Nat} {text front back : List Char} :
    cut? offset text = some (front, back) ↔ text = front ++ back ∧ offset = byteLength front := by
  induction text generalizing offset front back with
  | nil =>
    cases offset with
    | zero => cases front <;> simp [cut?, byteLength]
    | succ offset => cases front <;> simp [cut?, byteLength]
  | cons c rest ih =>
    cases front with
    | nil =>
      cases offset with
      | zero => simp [cut?, byteLength, eq_comm]
      | succ offset => simp [cut?, byteLength]
    | cons d front =>
      have hpos := d.utf8Size_pos
      rw [byteLength_cons, List.cons_append, List.cons.injEq]
      cases offset with
      | zero =>
        simp only [cut?, Option.some.injEq, Prod.mk.injEq]
        constructor
        · simp
        · omega
      | succ offset =>
        rw [cut?, Option.ite_none_right_eq_some]
        simp only [Option.map_eq_some_iff, Prod.mk.injEq, List.cons.injEq, Prod.exists, ih]
        constructor
        · rintro ⟨hle, front', back', ⟨rfl, hoffset⟩, ⟨rfl, rfl⟩, rfl⟩
          exact ⟨⟨rfl, rfl⟩, by omega⟩
        · rintro ⟨⟨rfl, rfl⟩, hoffset⟩
          exact ⟨by omega, front, back, ⟨rfl, by omega⟩, ⟨rfl, rfl⟩, rfl⟩

/-- A string takes the bytes of its characters. -/
theorem utf8ByteSize_ofList (text : List Char) : (String.ofList text).utf8ByteSize = byteLength text := by
  have hbytes : (String.ofList text).toByteArray = (bytes text).toByteArray := String.toByteArray_ofList
  rw [← String.size_toByteArray, hbytes, List.size_toByteArray, length_bytes]

/-- A text can be cut where a string has a position. -/
theorem isSome_cut?_iff {offset : Nat} {text : List Char} :
    (cut? offset text).isSome = true ↔ String.Pos.Raw.IsValid (.ofList text) ⟨offset⟩ := by
  rw [String.Pos.Raw.isValid_ofList, Option.isSome_iff_exists]
  constructor
  · rintro ⟨⟨front, back⟩, hcut⟩
    obtain ⟨rfl, rfl⟩ := cut?_eq_some_iff.mp hcut
    exact ⟨front.length, by rw [List.take_left, utf8ByteSize_ofList]⟩
  · rintro ⟨count, hoffset⟩
    rw [utf8ByteSize_ofList] at hoffset
    exact ⟨_, cut?_eq_some_iff.mpr ⟨(List.take_append_drop count text).symm, hoffset⟩⟩

/-- A byte made by setting bits of a byte that is not ASCII is not ASCII. -/
theorem le_or {low high : UInt8} (h : 0x80 ≤ high) : 0x80 ≤ low ||| high := by
  rw [UInt8.le_iff_toNat_le] at h ⊢
  rw [UInt8.toNat_or]
  exact Nat.le_trans h Nat.right_le_or

/-- No byte of a character outside ASCII is ASCII. -/
theorem le_of_mem_encode (hsize : c.utf8Size ≠ 1) (hb : b ∈ String.utf8EncodeChar c) : 0x80 ≤ b := by
  rcases c.utf8Size_eq with h | h | h | h
  · exact absurd h hsize
  · rw [String.utf8EncodeChar_eq_cons_cons h] at hb
    simp only [List.mem_cons, List.not_mem_nil, or_false] at hb
    rcases hb with rfl | rfl <;> exact le_or (by decide)
  · rw [String.utf8EncodeChar_eq_cons_cons_cons h] at hb
    simp only [List.mem_cons, List.not_mem_nil, or_false] at hb
    rcases hb with rfl | rfl | rfl <;> exact le_or (by decide)
  · rw [String.utf8EncodeChar_eq_cons_cons_cons_cons h] at hb
    simp only [List.mem_cons, List.not_mem_nil, or_false] at hb
    rcases hb with rfl | rfl | rfl | rfl <;> exact le_or (by decide)

/-- The byte of an ASCII character is its number. -/
theorem toNat_toUInt8 (hsize : c.utf8Size = 1) : c.toUInt8.toNat = c.toNat ∧ c.toNat < 128 := by
  have hle : c.toNat ≤ 127 := UInt32.le_iff_toNat_le.mp (Char.utf8Size_eq_one_iff.mp hsize)
  refine ⟨?_, Nat.lt_succ_of_le hle⟩
  rw [Char.toUInt8, UInt32.toNat_toUInt8]
  exact Nat.mod_eq_of_lt (Nat.lt_of_le_of_lt hle (by decide))

/-- The byte of an ASCII character gives the character back. -/
theorem ofUInt8_toUInt8 (hsize : c.utf8Size = 1) : Char.ofUInt8 c.toUInt8 = c := by
  apply Char.ext
  apply UInt32.toNat.inj
  exact (UInt8.toNat_toUInt32 c.toUInt8).trans (toNat_toUInt8 hsize).1

/-- No two ASCII characters have the same byte. -/
theorem eq_of_toUInt8_eq (hsize : c.utf8Size = 1) (hmark : mark.utf8Size = 1) (h : c.toUInt8 = mark.toUInt8) :
    c = mark := by
  rw [← ofUInt8_toUInt8 hsize, h, ofUInt8_toUInt8 hmark]

/-- Whichever byte of a character is looked at, it is of a class of ASCII characters where the character is. -/
theorem isByteOf_of_mem {p : Char → Bool} (hp : OnlyAscii p) (hb : b ∈ String.utf8EncodeChar c) :
    isByteOf p b = p c := by
  by_cases hsize : c.utf8Size = 1
  · rw [String.utf8EncodeChar_eq_singleton hsize] at hb
    obtain rfl : b = c.toUInt8 := List.mem_singleton.mp hb
    have hlt : c.toUInt8 < 0x80 := by
      rw [UInt8.lt_iff_toNat_lt, (toNat_toUInt8 hsize).1]
      exact (toNat_toUInt8 hsize).2
    rw [isByteOf, ofUInt8_toUInt8 hsize, decide_eq_true hlt, Bool.true_and]
  · have hle := le_of_mem_encode hsize hb
    rw [isByteOf, decide_eq_false (UInt8.not_lt.mpr hle), Bool.false_and, Bool.eq_false_iff.mpr (mt (hp c) hsize)]

/-- Whichever byte of a character is looked at, it is an ASCII character where the character is. -/
theorem eq_toUInt8_iff_of_mem (hmark : mark.utf8Size = 1) (hb : b ∈ String.utf8EncodeChar c) :
    b = mark.toUInt8 ↔ c = mark := by
  have honly : OnlyAscii (· == mark) := fun c hc => by rw [beq_iff_eq.mp hc, hmark]
  have hself : mark.toUInt8 ∈ String.utf8EncodeChar mark := by
    rw [String.utf8EncodeChar_eq_singleton hmark]
    exact List.mem_singleton.mpr rfl
  constructor
  · rintro rfl
    have hsame := (isByteOf_of_mem honly hb).symm.trans (isByteOf_of_mem honly hself)
    rwa [beq_self_eq_true, beq_iff_eq] at hsame
  · rintro rfl
    rw [String.utf8EncodeChar_eq_singleton hmark] at hb
    exact List.mem_singleton.mp hb

/-- A text that begins with a character begins with a byte of it. -/
theorem exists_head?_bytes (c : Char) (rest : List Char) :
    ∃ b ∈ String.utf8EncodeChar c, (bytes (c :: rest)).head? = some b := by
  obtain ⟨b, others, hencode⟩ := List.exists_cons_of_ne_nil (String.utf8EncodeChar_ne_nil (c := c))
  exact ⟨b, by rw [hencode]; exact List.mem_cons_self, by rw [bytes_cons, hencode]; rfl⟩

/-- The bytes that begin texts whose first character is of a class of ASCII characters. -/
theorem any_isByteOf_head? {p : Char → Bool} (hp : OnlyAscii p) (text : List Char) :
    (bytes text).head?.any (isByteOf p) = text.head?.any p := by
  cases text with
  | nil => rfl
  | cons c rest =>
    obtain ⟨b, hb, hhead⟩ := exists_head?_bytes c rest
    rw [hhead]
    exact isByteOf_of_mem hp hb

/-- A text begins with the byte of an ASCII character where it begins with the character. -/
theorem head?_bytes_eq_some_iff (hmark : mark.utf8Size = 1) {text : List Char} :
    (bytes text).head? = some mark.toUInt8 ↔ text.head? = some mark := by
  cases text with
  | nil => simp
  | cons c rest =>
    obtain ⟨b, hb, hhead⟩ := exists_head?_bytes c rest
    rw [hhead, List.head?_cons, Option.some.injEq, Option.some.injEq]
    exact eq_toUInt8_iff_of_mem hmark hb

/-- The bytes of a text are all of a class of ASCII characters where its characters are. -/
theorem all_isByteOf {p : Char → Bool} (hp : OnlyAscii p) (text : List Char) :
    (bytes text).all (isByteOf p) = text.all p := by
  induction text with
  | nil => rfl
  | cons c rest ih =>
    have hall : (String.utf8EncodeChar c).all (isByteOf p) = p c := by
      obtain ⟨b, hb, -⟩ := exists_head?_bytes c rest
      rw [Bool.eq_iff_iff, List.all_eq_true]
      exact ⟨fun h => isByteOf_of_mem hp hb ▸ h b hb, fun h b hb => (isByteOf_of_mem hp hb).trans h⟩
    rw [bytes_cons, List.all_append, ih, hall, List.all_cons]

end

/-- The ASCII blanks are ASCII characters. -/
theorem onlyAscii_isAsciiBlank : OnlyAscii isAsciiBlank := by
  intro c hc
  simp only [isAsciiBlank, Bool.or_eq_true, beq_iff_eq] at hc
  rcases hc with (((rfl | rfl) | rfl) | rfl) | rfl <;> rfl

/-- ASCII letters and digits are ASCII characters. -/
theorem onlyAscii_isAlphanum : OnlyAscii Char.isAlphanum := by
  intro c hc
  rw [Char.utf8Size_eq_one_iff]
  rcases Bool.or_eq_true_iff.mp hc with halpha | hdigit
  · rcases Bool.or_eq_true_iff.mp halpha with hupper | hlower
    · have hle : c.val ≤ 'Z'.val := (of_decide_eq_true hupper).2
      exact UInt32.le_trans hle (by decide)
    · have hle : c.val ≤ 'z'.val := of_decide_eq_true (Bool.and_eq_true_iff.mp hlower).2
      exact UInt32.le_trans hle (by decide)
  · have hle : c.val ≤ '9'.val := of_decide_eq_true (Bool.and_eq_true_iff.mp hdigit).2
    exact UInt32.le_trans hle (by decide)

/-- The characters of identifiers are ASCII characters. -/
theorem onlyAscii_isIdentifierChar : OnlyAscii isIdentifierChar := by
  intro c hc
  rw [isIdentifierChar, Bool.or_eq_true, Bool.or_eq_true, beq_iff_eq, beq_iff_eq] at hc
  rcases hc with (halnum | rfl) | rfl
  · exact onlyAscii_isAlphanum c halnum
  · rfl
  · rfl

end TreeQuery.Text
