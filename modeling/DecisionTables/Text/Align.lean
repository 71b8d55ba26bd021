/-!
# Widths of texts

A text is as long as it has bytes in UTF-8, and is set into a field by the number of its characters.
Main statements: the bytes counted character by character are those of the string, and of two parts
at the start of a text the one with more characters has more bytes.
-/
namespace DecisionTables.Text

def byteLength : List Char → Nat
  | [] => 0
  | c :: rest => c.utf8Size + byteLength rest

theorem byteLength_append (a b : List Char) :
    byteLength (a ++ b) = byteLength a + byteLength b := by
  induction a with
  | nil => simp [byteLength]
  | cons c a ih => simp [byteLength, ih, Nat.add_assoc]

theorem byteLength_eq_utf8ByteSize (text : List Char) :
    byteLength text = (String.ofList text).utf8ByteSize := by
  induction text with
  | nil => rfl
  | cons c text ih =>
    rw [byteLength, ih, ← List.singleton_append, String.ofList_append, String.utf8ByteSize_append,
      ← String.singleton_eq_ofList, String.utf8ByteSize_singleton]

theorem utf8ByteSize_eq (text : String) : text.utf8ByteSize = byteLength text.toList := by
  rw [byteLength_eq_utf8ByteSize, String.ofList_toList]

theorem byteLength_pos_iff {chars : List Char} : 0 < byteLength chars ↔ chars ≠ [] := by
  cases chars with
  | nil => simp [byteLength]
  | cons c chars =>
    have hc := c.utf8Size_pos
    simp only [byteLength, ne_eq, reduceCtorEq, not_false_eq_true, iff_true]
    omega

/-- Of two parts at the start of a text the one with more characters has more bytes. -/
theorem byteLength_lt_iff {chars front front' : List Char} (h : front <+: chars)
    (h' : front' <+: chars) :
    byteLength front < byteLength front' ↔ front.length < front'.length := by
  have hpos : ∀ chars : List Char, 0 < byteLength chars ↔ 0 < chars.length := by
    intro chars
    rw [byteLength_pos_iff, List.length_pos_iff]
  rcases List.prefix_or_prefix_of_prefix h h' with ⟨more, rfl⟩ | ⟨more, rfl⟩
  · have hmore := hpos more
    rw [byteLength_append, List.length_append]
    omega
  · rw [byteLength_append, List.length_append]
    omega

theorem eq_of_byteLength_eq {chars front front' : List Char} (h : front <+: chars)
    (h' : front' <+: chars) (heq : byteLength front = byteLength front') : front = front' := by
  have hlt := byteLength_lt_iff h h'
  have hgt := byteLength_lt_iff h' h
  exact (List.prefix_of_prefix_length_le h h' (by omega)).eq_of_length (by omega)

def alignRight (width : Nat) (text : String) : String :=
  String.ofList (List.replicate (width - text.length) ' ' ++ text.toList)

def alignLeft (width : Nat) (text : String) : String :=
  String.ofList (text.toList ++ List.replicate (width - text.length) ' ')

/-- At most the first `limit` characters of a text. -/
def cut (limit : Nat) (text : String) : String := String.ofList (text.toList.take limit)

end DecisionTables.Text
