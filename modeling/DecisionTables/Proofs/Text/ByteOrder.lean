import Mathlib

/-!
# The order of texts

UTF-8 keeps the order of the code points: where two texts part, the bytes of the lesser character
part below those of the greater one. Main statement: to compare two strings is to compare their
bytes.
-/
namespace DecisionTables.Text

section Parting

variable {α : Type} [LT α]

/-- At the first place where two lists differ, the first one has the lesser item. -/
def PartsBelow : List α → List α → Prop
  | a :: x, b :: y => a < b ∨ a = b ∧ PartsBelow x y
  | _, _ => False

variable {x y : List α}

theorem PartsBelow.append (h : PartsBelow x y) (s t : List α) :
    PartsBelow (x ++ s) (y ++ t) := by
  induction x generalizing y with
  | nil => exact h.elim
  | cons a x ih =>
    cases y with
    | nil => exact h.elim
    | cons b y => exact h.imp_right fun ⟨hab, hxy⟩ => ⟨hab, ih hxy⟩

theorem PartsBelow.append_left (h : PartsBelow x y) (s : List α) :
    PartsBelow (s ++ x) (s ++ y) := by
  induction s with
  | nil => exact h
  | cons a s ih => exact .inr ⟨rfl, ih⟩

theorem PartsBelow.lt (h : PartsBelow x y) : x < y := by
  induction x generalizing y with
  | nil => exact h.elim
  | cons a x ih =>
    cases y with
    | nil => exact h.elim
    | cons b y => exact List.cons_lt_cons_iff.mpr (h.imp_right fun ⟨hab, hxy⟩ => ⟨hab, ih hxy⟩)

end Parting

/-- The lists differ before one of them ends. -/
def Apart {α : Type} [LT α] (x y : List α) : Prop := PartsBelow x y ∨ PartsBelow y x

section Apart

variable {α : Type} [LinearOrder α] {x y x' y' : List α}

theorem Apart.symm (h : Apart x y) : Apart y x := Or.symm h

theorem Apart.append_left (h : Apart x y) (s : List α) : Apart (s ++ x) (s ++ y) :=
  h.imp (·.append_left s) (·.append_left s)

theorem apart_cons_of_ne {a b : α} (h : a ≠ b) (x y : List α) : Apart (a :: x) (b :: y) :=
  h.lt_or_gt.imp .inl .inl

/-- Two lists are apart, unless one goes on where the other ends. -/
theorem apart_of_not_prefix (hxy : ¬ x <+: y) (hyx : ¬ y <+: x) : Apart x y := by
  induction x generalizing y with
  | nil => exact absurd List.nil_prefix hxy
  | cons a x ih =>
    cases y with
    | nil => exact absurd List.nil_prefix hyx
    | cons b y =>
      by_cases hab : a = b
      · subst hab
        rw [List.cons_prefix_cons, and_iff_right rfl] at hxy hyx
        exact (ih hxy hyx).append_left [a]
      · exact apart_cons_of_ne hab x y

/-- Two pairs of lists compare alike: both are of equal lists, or both part with the lesser item on
the same side. -/
inductive OrderedAlike (x y x' y' : List α) : Prop
  | equal (h : x = y) (h' : x' = y')
  | below (h : PartsBelow x y) (h' : PartsBelow x' y')
  | above (h : PartsBelow y x) (h' : PartsBelow y' x')

theorem OrderedAlike.symm (h : OrderedAlike x y x' y') : OrderedAlike y x y' x' := by
  cases h with
  | equal h h' => exact .equal h.symm h'.symm
  | below h h' => exact .above h h'
  | above h h' => exact .below h h'

theorem OrderedAlike.append_left (h : OrderedAlike x y x' y') (s s' : List α) :
    OrderedAlike (s ++ x) (s ++ y) (s' ++ x') (s' ++ y') := by
  cases h with
  | equal h h' => exact .equal (congrArg _ h) (congrArg _ h')
  | below h h' => exact .below (h.append_left s) (h'.append_left s')
  | above h h' => exact .above (h.append_left s) (h'.append_left s')

/-- What follows does not count where both pairs begin with the same two lists, and these part. -/
theorem Apart.orderedAlike (h : Apart x y) (s t s' t' : List α) :
    OrderedAlike (x ++ s) (y ++ t) (x ++ s') (y ++ t') := by
  rcases h with h | h
  · exact .below (h.append s t) (h.append s' t')
  · exact .above (h.append t s) (h.append t' s')

theorem OrderedAlike.le (h : OrderedAlike x y x' y') (hle : x ≤ y) : x' ≤ y' := by
  cases h with
  | equal _ h' => exact h'.le
  | below _ h' => exact le_of_lt h'.lt
  | above h _ => exact absurd h.lt (not_lt.mpr hle)

end Apart

def bytes (text : String) : List UInt8 := text.toByteArray.data.toList

theorem bytes_eq_flatMap (text : String) :
    bytes text = text.toList.flatMap String.utf8EncodeChar := by
  conv_lhs => rw [← String.ofList_toList (s := text)]
  rw [bytes, String.toByteArray_ofList, List.utf8Encode, List.toList_data_toByteArray]

theorem partsBelow_of_map_toNat {x y : List UInt8}
    (h : PartsBelow (x.map UInt8.toNat) (y.map UInt8.toNat)) : PartsBelow x y := by
  induction x generalizing y with
  | nil => exact h.elim
  | cons a x ih =>
    cases y with
    | nil => exact h.elim
    | cons b y =>
      rcases h with hlt | ⟨heq, h⟩
      · exact .inl (UInt8.lt_iff_toNat_lt.mpr hlt)
      · exact .inr ⟨UInt8.toNat_inj.mp heq, ih h⟩

theorem partsBelow_utf8EncodeChar {c d : Char} (h : c < d) :
    PartsBelow (String.utf8EncodeChar c) (String.utf8EncodeChar d) := by
  have hlt : c.val.toNat < d.val.toNat := h
  have hmax : d.val.toNat < 0x110000 := by
    rcases d.valid with hd | hd
    · have hsmall : d.val.toNat < 0xd800 := hd
      omega
    · exact hd.2
  refine partsBelow_of_map_toNat ?_
  unfold String.utf8EncodeChar
  generalize c.val.toNat = m at hlt
  generalize d.val.toNat = n at hlt hmax
  -- A character of fewer bytes has the lesser first byte; at equal lengths the bytes are the
  -- digits of the code point.
  dsimp only
  split_ifs <;> simp only [List.map_cons, List.map_nil, PartsBelow, UInt8.toNat_ofNat'] <;>
    simp (disch := omega) only [Nat.mod_eq_of_lt] <;> omega

theorem bytes_lt_of_lt {s t : String} (h : s < t) : bytes s < bytes t := by
  rw [bytes_eq_flatMap, bytes_eq_flatMap]
  have hlex : List.Lex (· < ·) s.toList t.toList :=
    (List.lt_iff_lex_lt _ _).mp (String.lt_iff_toList_lt.mp h)
  generalize s.toList = x at hlex
  generalize t.toList = y at hlex
  induction hlex with
  | @nil d y =>
    rw [List.flatMap_nil, List.flatMap_cons]
    obtain ⟨b, rest, hb⟩ := List.exists_cons_of_ne_nil (String.utf8EncodeChar_ne_nil (c := d))
    rw [hb]
    exact List.Lex.nil
  | @rel c x d y hcd =>
    rw [List.flatMap_cons, List.flatMap_cons]
    exact ((partsBelow_utf8EncodeChar hcd).append _ _).lt
  | @cons c x y _ ih =>
    rw [List.flatMap_cons, List.flatMap_cons]
    exact List.append_left_lt ih

theorem bytes_le_iff {s t : String} : bytes s ≤ bytes t ↔ s ≤ t := by
  refine ⟨fun h => not_lt.mp fun hlt => ?_, fun h => ?_⟩
  · exact List.not_lt.mpr h (bytes_lt_of_lt hlt)
  · rcases h.lt_or_eq with hlt | rfl
    · exact List.le_of_lt (bytes_lt_of_lt hlt)
    · exact List.le_refl _

def InByteOrder (texts : List String) : Prop := texts.Pairwise fun s t => bytes s ≤ bytes t

theorem inByteOrder_iff {texts : List String} :
    InByteOrder texts ↔ texts.Pairwise fun s t => s ≤ t := by
  simp only [InByteOrder, bytes_le_iff]

end DecisionTables.Text
