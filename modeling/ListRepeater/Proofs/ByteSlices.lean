import Mathlib.Data.String.Basic
/-!
# Slices of texts by bytes

A text is kept as the bytes of its characters, one to four for each of them. A slice of a text is
named by two byte positions, and there is one only if these come in order and are boundaries of
characters. Every character has its byte position, and between two of these there is always a
slice.
-/
namespace ListRepeater.Text

def bytes (text : String) : List UInt8 := text.toByteArray.data.toList

/-- The text between two byte positions, if they come in order and are boundaries of characters. -/
def slice? (text : String) (start stop : Nat) : Option String :=
  if start ≤ stop ∧ String.Pos.Raw.IsValid text ⟨start⟩ ∧ String.Pos.Raw.IsValid text ⟨stop⟩ then
    some (String.Pos.Raw.extract text ⟨start⟩ ⟨stop⟩)
  else none

/-- The byte position of the character with this number. -/
def byteAt (cs : List Char) (k : Nat) : Nat := String.utf8Len (cs.take k)

section Bytes

theorem bytes_ofList (cs : List Char) :
    bytes (String.ofList cs) = cs.flatMap String.utf8EncodeChar := by
  rw [bytes, String.toByteArray_ofList, List.utf8Encode, List.toList_data_toByteArray]

theorem length_flatMap_utf8EncodeChar (cs : List Char) :
    (cs.flatMap String.utf8EncodeChar).length = String.utf8Len cs := by
  induction cs with
  | nil => rfl
  | cons c cs ih =>
    rw [List.flatMap_cons, List.length_append, ih, String.length_utf8EncodeChar,
      String.utf8Len_cons, Nat.add_comm]

theorem exists_utf8EncodeChar (c : Char) : ∃ b bs, String.utf8EncodeChar c = b :: bs :=
  List.exists_cons_of_ne_nil
    (List.ne_nil_of_length_pos (String.length_utf8EncodeChar c ▸ Char.utf8Size_pos c))

theorem utf8Size_of_small {c : Char} (small : c.toNat < 128) : c.utf8Size = 1 := by
  rw [Char.utf8Size_eq_one_iff, UInt32.le_iff_toNat_le]
  exact Nat.le_of_lt_succ small

theorem utf8EncodeChar_of_small {c : Char} (small : c.toNat < 128) :
    String.utf8EncodeChar c = [c.toUInt8] :=
  String.utf8EncodeChar_eq_singleton (utf8Size_of_small small)

/-- A character of one byte is that byte, and the bytes of any other one stand for no character of
one byte. -/
theorem utf8EncodeChar_cases (c : Char) :
    (c.toNat < 128 ∧ String.utf8EncodeChar c = [c.toUInt8]) ∨
    (128 ≤ c.toNat ∧ ∀ b ∈ String.utf8EncodeChar c, 128 ≤ b.toNat) := by
  by_cases small : c.toNat < 128
  · exact Or.inl ⟨small, utf8EncodeChar_of_small small⟩
  · have large : ¬c.val.toNat ≤ 127 := fun le => small (Nat.lt_succ_of_le le)
    refine Or.inr ⟨Nat.le_of_not_lt small, fun b hb => ?_⟩
    rw [String.utf8EncodeChar] at hb
    simp only [if_neg large] at hb
    split at hb
    · simp only [List.mem_cons, List.not_mem_nil, or_false] at hb
      rcases hb with rfl | rfl <;> simp only [UInt8.toNat_ofNat'] <;> omega
    split at hb
    · simp only [List.mem_cons, List.not_mem_nil, or_false] at hb
      rcases hb with rfl | rfl | rfl <;> simp only [UInt8.toNat_ofNat'] <;> omega
    · simp only [List.mem_cons, List.not_mem_nil, or_false] at hb
      rcases hb with rfl | rfl | rfl | rfl <;> simp only [UInt8.toNat_ofNat'] <;> omega

variable {c d : Char}

theorem toNat_toUInt8 (small : c.toNat < 128) : c.toUInt8.toNat = c.toNat := by
  change c.toNat % 256 = c.toNat
  omega

theorem toUInt8_eq_iff (hc : c.toNat < 128) (hd : d.toNat < 128) :
    c.toUInt8 = d.toUInt8 ↔ c = d := by
  refine ⟨fun same => Char.toNat_inj.mp ?_, congrArg Char.toUInt8⟩
  rw [← toNat_toUInt8 hc, ← toNat_toUInt8 hd, same]

/-- A byte that is a character stands in front only if this character does. -/
theorem head?_flatMap_utf8EncodeChar (small : d.toNat < 128) (cs : List Char) :
    (cs.flatMap String.utf8EncodeChar).head? = some d.toUInt8 ↔ cs.head? = some d := by
  cases cs with
  | nil => simp
  | cons c cs =>
    rw [List.flatMap_cons, List.head?_cons, Option.some.injEq]
    rcases utf8EncodeChar_cases c with ⟨own, encoded⟩ | ⟨other, large⟩
    · rw [encoded, List.cons_append, List.head?_cons, Option.some.injEq, toUInt8_eq_iff own small]
    · have apart : c ≠ d := by
        rintro rfl
        omega
      obtain ⟨b, bs, encoded⟩ := exists_utf8EncodeChar c
      have high := large b (encoded ▸ List.mem_cons_self)
      rw [encoded, List.cons_append, List.head?_cons, Option.some.injEq]
      refine ⟨?_, fun same => absurd same apart⟩
      rintro rfl
      rw [toNat_toUInt8 small] at high
      omega

end Bytes

section Positions

variable {cs : List Char} {i j k m : Nat}

theorem take_append_cons_drop {c : Char} (here : cs[k]? = some c) :
    cs.take k ++ c :: cs.drop (k + 1) = cs := by
  obtain ⟨lt, own⟩ := List.getElem?_eq_some_iff.mp here
  rw [← own, ← List.drop_eq_getElem_cons lt, List.take_append_drop]

theorem byteAt_append_length (front back : List Char) :
    byteAt (front ++ back) front.length = String.utf8Len front := by
  rw [byteAt, List.take_left]

theorem byteAt_length (cs : List Char) :
    byteAt cs cs.length = (String.ofList cs).utf8ByteSize := by
  rw [byteAt, List.take_length, String.utf8ByteSize_ofList]

theorem byteAt_succ {c : Char} (here : cs[k]? = some c) :
    byteAt cs (k + 1) = byteAt cs k + c.utf8Size := by
  rw [byteAt, List.take_add_one, here, Option.toList_some, String.utf8Len_append, byteAt]
  simp

theorem byteAt_lt_succ (within : k < cs.length) : byteAt cs k < byteAt cs (k + 1) := by
  rw [byteAt_succ (List.getElem?_eq_getElem within)]
  exact Nat.lt_add_of_pos_right (Char.utf8Size_pos cs[k])

theorem byteAt_mono (cs : List Char) (h : i ≤ j) : byteAt cs i ≤ byteAt cs j :=
  String.utf8Len_le_of_prefix (List.take_prefix_take_left h)

theorem take_byteAt (cs : List Char) (k : Nat) :
    (cs.flatMap String.utf8EncodeChar).take (byteAt cs k) =
      (cs.take k).flatMap String.utf8EncodeChar := by
  have parts : cs.flatMap String.utf8EncodeChar =
      (cs.take k).flatMap String.utf8EncodeChar ++ (cs.drop k).flatMap String.utf8EncodeChar := by
    rw [← List.flatMap_append, List.take_append_drop]
  rw [parts, byteAt, ← length_flatMap_utf8EncodeChar, List.take_left]

/-- The bytes up to one inside of a character. -/
theorem take_byteAt_add {c : Char} (here : cs[k]? = some c) (h : j ≤ c.utf8Size) :
    (cs.flatMap String.utf8EncodeChar).take (byteAt cs k + j) =
      (cs.take k).flatMap String.utf8EncodeChar ++ (String.utf8EncodeChar c).take j := by
  have parts : cs.flatMap String.utf8EncodeChar = (cs.take k).flatMap String.utf8EncodeChar ++
      (String.utf8EncodeChar c ++ (cs.drop (k + 1)).flatMap String.utf8EncodeChar) := by
    rw [← List.flatMap_cons, ← List.flatMap_append, take_append_cons_drop here]
  rw [parts, byteAt, ← length_flatMap_utf8EncodeChar, List.take_length_add_append,
    List.take_append_of_le_length (String.length_utf8EncodeChar c ▸ h)]

theorem byteAt_take (cs : List Char) (h : k ≤ m) : byteAt (cs.take m) k = byteAt cs k := by
  rw [byteAt, byteAt, List.take_take, Nat.min_eq_left h]

/-- Every byte belongs to a character. -/
theorem exists_byteAt (h : i < byteAt cs m) :
    ∃ k c, k < m ∧ cs[k]? = some c ∧ byteAt cs k ≤ i ∧ i < byteAt cs (k + 1) := by
  induction m with
  | zero => cases h
  | succ m ih =>
    by_cases before : i < byteAt cs m
    · obtain ⟨k, c, lt, here⟩ := ih before
      exact ⟨k, c, Nat.lt_succ_of_lt lt, here⟩
    · cases here : cs[m]? with
      | none =>
        rw [byteAt, List.take_add_one, here, Option.toList_none, List.append_nil] at h
        exact absurd h before
      | some c => exact ⟨m, c, Nat.lt_succ_self m, here, Nat.le_of_not_lt before, h⟩

/-- A byte is compared with a character as the character that it belongs to. -/
theorem byteAt_le_iff (start : byteAt cs k ≤ i) (stop : i < byteAt cs (k + 1)) :
    byteAt cs m ≤ i ↔ m ≤ k := by
  constructor
  · intro le
    by_contra later
    have next : k + 1 ≤ m := Nat.lt_of_not_le later
    exact Nat.not_le_of_lt stop (Nat.le_trans (byteAt_mono cs next) le)
  · exact fun le => Nat.le_trans (byteAt_mono cs le) start

end Positions

section Slices

variable {cs : List Char} {i j : Nat}

theorem take_append_drop_take (cs : List Char) (h : i ≤ j) :
    cs.take i ++ (cs.take j).drop i = cs.take j := by
  have parts := List.take_append_drop i (cs.take j)
  rwa [List.take_take, Nat.min_eq_left h] at parts

theorem byteAt_add_utf8Len (cs : List Char) (h : i ≤ j) :
    byteAt cs i + String.utf8Len ((cs.take j).drop i) = byteAt cs j := by
  rw [byteAt, byteAt, ← String.utf8Len_append, take_append_drop_take cs h]

/-- There is a slice between any two characters. -/
theorem slice?_byteAt (cs : List Char) (h : i ≤ j) :
    slice? (String.ofList cs) (byteAt cs i) (byteAt cs j) =
      some (String.ofList ((cs.take j).drop i)) := by
  have valid : ∀ k, String.Pos.Raw.IsValid (String.ofList cs) ⟨byteAt cs k⟩ := fun k =>
    String.Pos.Raw.isValid_ofList.mpr ⟨k, by rw [String.utf8ByteSize_ofList, byteAt]⟩
  have piece := String.extract_of_valid (cs.take i) ((cs.take j).drop i) (cs.drop j)
  rw [take_append_drop_take cs h, List.take_append_drop] at piece
  rw [slice?, if_pos ⟨byteAt_mono cs h, valid i, valid j⟩, ← byteAt_add_utf8Len cs h]
  exact congrArg some piece

theorem slice?_append (front piece back : List Char) :
    slice? (String.ofList (front ++ (piece ++ back))) (String.utf8Len front)
      (String.utf8Len front + String.utf8Len piece) = some (String.ofList piece) := by
  have own := slice?_byteAt (front ++ (piece ++ back))
    (Nat.le_add_right front.length piece.length)
  rwa [byteAt_append_length, byteAt, List.take_length_add_append, List.take_left, List.drop_left,
    String.utf8Len_append] at own

theorem slice?_append_end (front back : List Char) :
    slice? (String.ofList (front ++ back)) (String.utf8Len front)
      (String.ofList (front ++ back)).utf8ByteSize = some (String.ofList back) := by
  have own := slice?_append front back []
  rw [List.append_nil, ← String.utf8Len_append] at own
  rwa [String.utf8ByteSize_ofList]

/-- Every slice stands between two characters. -/
theorem exists_of_slice? {text piece : String} {start stop : Nat}
    (h : slice? text start stop = some piece) :
    ∃ i j, i ≤ j ∧ start = byteAt text.toList i ∧ stop = byteAt text.toList j ∧
      piece = String.ofList ((text.toList.take j).drop i) := by
  rw [← String.ofList_toList (s := text)] at h
  obtain ⟨order, starts, stops⟩ := (Option.ite_none_right_eq_some.mp h).1
  obtain ⟨i, at_i⟩ := String.Pos.Raw.isValid_ofList.mp starts
  obtain ⟨j, at_j⟩ := String.Pos.Raw.isValid_ofList.mp stops
  have hi : start = byteAt text.toList i := at_i.trans (String.utf8ByteSize_ofList _)
  have hj : stop = byteAt text.toList j := at_j.trans (String.utf8ByteSize_ofList _)
  have found : ∀ i j, i ≤ j → start = byteAt text.toList i → stop = byteAt text.toList j →
      piece = String.ofList ((text.toList.take j).drop i) := by
    rintro i j le rfl rfl
    exact Option.some.inj (h.symm.trans (slice?_byteAt text.toList le))
  rcases Nat.le_total i j with le | le
  · exact ⟨i, j, le, hi, hj, found i j le hi hj⟩
  · -- the numbers can only be out of order behind the last character
    have same : start = byteAt text.toList j :=
      Nat.le_antisymm (hj ▸ order) (hi ▸ byteAt_mono text.toList le)
    exact ⟨j, j, Nat.le_refl j, same, hj, found j j (Nat.le_refl j) same hj⟩

/-- A position inside of a character makes no slice. -/
example : slice? "é" 0 1 = none := by decide

theorem utf8ByteSize_of_slice? {text piece : String} {start stop : Nat}
    (h : slice? text start stop = some piece) : start + piece.utf8ByteSize = stop := by
  obtain ⟨i, j, le, rfl, rfl, rfl⟩ := exists_of_slice? h
  rw [String.utf8ByteSize_ofList, byteAt_add_utf8Len text.toList le]

end Slices

end ListRepeater.Text
