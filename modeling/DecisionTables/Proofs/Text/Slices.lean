import DecisionTables.Proofs.Text.ByteOrder
import DecisionTables.Text.Align
import Mathlib

/-!
# Parts of a text by byte offsets

An offset inside a character, or beyond the end, cuts a text nowhere, so that a slice has a result
only between two boundaries in order. Main statements: the part of a text that stands between its
first and its last characters is the slice between the two byte lengths, and a byte below 128 is a
whole character, before and after which the text can be cut.
-/
namespace DecisionTables.Text

/-- A step of a computation with offsets that has no result. -/
inductive OffsetFault where
  | slice (start stop : ℕ)
  | tail (start : ℕ)
  | difference (offset amount : ℕ)
  deriving DecidableEq

/-- The offset stands before a character of the text, or at its end. -/
def IsBoundary (text : String) (i : ℕ) : Prop := String.Pos.Raw.IsValid text ⟨i⟩

instance (text : String) (i : ℕ) : Decidable (IsBoundary text i) :=
  inferInstanceAs (Decidable (String.Pos.Raw.IsValid text ⟨i⟩))

def IsRange (text : String) (start stop : ℕ) : Prop :=
  start ≤ stop ∧ IsBoundary text start ∧ IsBoundary text stop

instance (text : String) (start stop : ℕ) : Decidable (IsRange text start stop) :=
  inferInstanceAs (Decidable (start ≤ stop ∧ IsBoundary text start ∧ IsBoundary text stop))

def slice (text : String) (start stop : ℕ) : Except OffsetFault String :=
  if h : IsRange text start stop then .ok (text.extract ⟨⟨start⟩, h.2.1⟩ ⟨⟨stop⟩, h.2.2⟩)
  else .error (.slice start stop)

/-- The bytes of a text from an offset on, which may be inside a character. -/
def bytesFrom (text : String) (start : ℕ) : Except OffsetFault (List UInt8) :=
  if start ≤ text.utf8ByteSize then .ok ((bytes text).drop start) else .error (.tail start)

def difference (offset amount : ℕ) : Except OffsetFault ℕ :=
  if amount ≤ offset then .ok (offset - amount) else .error (.difference offset amount)

variable {text : String} {front piece rest : List Char} {start stop i : ℕ}

theorem isBoundary_iff :
    IsBoundary text i ↔ ∃ front rest, text.toList = front ++ rest ∧ byteLength front = i := by
  rw [IsBoundary, String.Pos.Raw.isValid_iff_exists_append]
  constructor
  · rintro ⟨before, after, rfl, hi⟩
    refine ⟨before.toList, after.toList, String.toList_append, ?_⟩
    rw [← utf8ByteSize_eq]
    exact (congrArg String.Pos.Raw.byteIdx hi).symm
  · rintro ⟨front, rest, htext, rfl⟩
    refine ⟨String.ofList front, String.ofList rest, ?_, ?_⟩
    · rw [← String.ofList_append, ← htext, String.ofList_toList]
    · rw [byteLength_eq_utf8ByteSize]
      rfl

theorem extract_append_append (a b c : ByteArray) :
    (a ++ (b ++ c)).extract a.size (a.size + b.size) = b := by
  have hskip := ByteArray.extract_append_size_add (a := a) (b := b ++ c) (i := 0) (j := b.size)
  rw [Nat.add_zero] at hskip
  rw [hskip, ByteArray.extract_append_eq_left rfl]

theorem slice_eq_ok (htext : text.toList = front ++ piece ++ rest)
    (hstart : byteLength front = start) (hstop : start + byteLength piece = stop) :
    slice text start stop = .ok (String.ofList piece) := by
  have hrange : IsRange text start stop := by
    refine ⟨by omega, isBoundary_iff.mpr ⟨front, piece ++ rest, ?_, hstart⟩,
      isBoundary_iff.mpr ⟨front ++ piece, rest, htext, ?_⟩⟩
    · rw [htext, List.append_assoc]
    · rw [byteLength_append]
      omega
  have hsize : ∀ chars, (String.ofList chars).toByteArray.size = byteLength chars := by
    intro chars
    rw [String.size_toByteArray, byteLength_eq_utf8ByteSize]
  have hbytes : text.toByteArray = (String.ofList front).toByteArray ++
      ((String.ofList piece).toByteArray ++ (String.ofList rest).toByteArray) := by
    rw [← String.toByteArray_append, ← String.toByteArray_append, ← String.ofList_append,
      ← String.ofList_append, ← List.append_assoc, ← htext, String.ofList_toList]
  rw [slice, dif_pos hrange]
  congr 1
  rw [← String.toByteArray_inj, String.toByteArray_extract, hbytes]
  dsimp only
  rw [← hstop, ← hstart, ← hsize, ← hsize, extract_append_append]

theorem isRange_of_slice_eq_ok {part : String} (h : slice text start stop = .ok part) :
    IsRange text start stop := by
  by_contra hrange
  rw [slice, dif_neg hrange] at h
  cases h

example : slice "é." 1 3 = .error (.slice 1 3) := by decide

/-- What stands before and after a part of the text are slices too. -/
theorem slices_around (htext : text.toList = front ++ piece ++ rest) :
    slice text 0 (byteLength front) = .ok (String.ofList front) ∧
      slice text (byteLength front + byteLength piece) text.utf8ByteSize =
        .ok (String.ofList rest) := by
  have hbefore : text.toList = [] ++ front ++ (piece ++ rest) := by
    rw [htext, List.nil_append, List.append_assoc]
  have hafter : text.toList = front ++ piece ++ rest ++ [] := by rw [htext, List.append_nil]
  refine ⟨slice_eq_ok hbefore rfl (Nat.zero_add _), slice_eq_ok hafter (byteLength_append _ _) ?_⟩
  rw [utf8ByteSize_eq, htext, byteLength_append, byteLength_append]

theorem isRange_around (htext : text.toList = front ++ piece ++ rest) :
    IsRange text 0 (byteLength front) ∧
      IsRange text (byteLength front + byteLength piece) text.utf8ByteSize :=
  (slices_around htext).imp isRange_of_slice_eq_ok isRange_of_slice_eq_ok

/-- No byte of a longer character is a character of one byte. -/
theorem eq_of_mem_utf8EncodeChar {c d : Char} (hc : c.utf8Size = 1)
    (h : c.val.toUInt8 ∈ String.utf8EncodeChar d) : d = c := by
  have hsmall : c.val.toNat ≤ 127 := Char.utf8Size_eq_one_iff.mp hc
  rw [← Char.val_inj, ← UInt32.toNat_inj]
  unfold String.utf8EncodeChar at h
  generalize d.val.toNat = n at h
  dsimp only at h
  -- A character of one byte is below 128, and no byte of a longer character is.
  split_ifs at h <;>
    simp only [List.mem_cons, List.not_mem_nil, or_false, ← UInt8.toNat_inj, UInt8.toNat_ofNat',
      UInt32.toNat_toUInt8] at h <;> omega

theorem length_flatMap_utf8EncodeChar (chars : List Char) :
    (chars.flatMap String.utf8EncodeChar).length = byteLength chars := by
  induction chars with
  | nil => rfl
  | cons c chars ih =>
    rw [List.flatMap_cons, List.length_append, ih, String.length_utf8EncodeChar, byteLength]

/-- A byte that is a character of one byte stands for that character. -/
theorem getElem?_flatMap_eq_some_iff {c : Char} (hc : c.utf8Size = 1) {chars : List Char} :
    (chars.flatMap String.utf8EncodeChar)[i]? = some c.val.toUInt8 ↔
      ∃ front rest, chars = front ++ c :: rest ∧ byteLength front = i := by
  constructor
  · intro h
    induction chars generalizing i with
    | nil => simp at h
    | cons d chars ih =>
      rw [List.flatMap_cons, List.getElem?_append, String.length_utf8EncodeChar] at h
      split_ifs at h with hi
      · obtain rfl := eq_of_mem_utf8EncodeChar hc (List.mem_of_getElem? h)
        exact ⟨[], chars, rfl, by rw [byteLength]; omega⟩
      · obtain ⟨front, rest, rfl, hfront⟩ := ih h
        exact ⟨d :: front, rest, rfl, by rw [byteLength]; omega⟩
  · rintro ⟨front, rest, rfl, rfl⟩
    rw [List.flatMap_append, List.flatMap_cons, String.utf8EncodeChar_eq_singleton hc,
      ← length_flatMap_utf8EncodeChar]
    simp

/-- The byte at an offset is that of a character of one byte. -/
def HasByte (text : String) (i : ℕ) (c : Char) : Prop := (bytes text)[i]? = some c.val.toUInt8

instance (text : String) (i : ℕ) (c : Char) : Decidable (HasByte text i c) :=
  inferInstanceAs (Decidable ((bytes text)[i]? = some c.val.toUInt8))

theorem hasByte_iff {c : Char} (hc : c.utf8Size = 1) : HasByte text i c ↔
    ∃ front rest, text.toList = front ++ c :: rest ∧ byteLength front = i := by
  rw [HasByte, bytes_eq_flatMap]
  exact getElem?_flatMap_eq_some_iff hc

end DecisionTables.Text
