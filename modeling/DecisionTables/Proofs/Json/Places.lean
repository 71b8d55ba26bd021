import DecisionTables.Json.Basic
import DecisionTables.Proofs.Json.Shapes
import Mathlib

/-!
# Walking into JSON values

A walk goes from a value to a part of it, one member or one item at a time. Main statement: in a
value that was read, the look-up of steps finds exactly what walking along them reaches.
-/
namespace DecisionTables.Json
open Text

/-- One step into a value: to the member of the step's name, or to the item whose index the step
writes in decimal digits, with no sign and no leading zero. No list is so long that an index takes
more than 64 bits. -/
inductive Enters : Json → String → Json → Prop
  | member {members : List (String × Json)} {name : String} {inner : Json}
      (h : (name, inner) ∈ members) : Enters (object members) name inner
  | item {items : List Json} {i : ℕ} {inner : Json} (h : items[i]? = some inner)
      (hLimit : i < indexLimit) : Enters (array items) (toString i) inner

inductive Walk : Json → List String → Json → Prop
  | done (j : Json) : Walk j [] j
  | step {j inner target : Json} {name : String} {rest : List String} (h : Enters j name inner)
      (hRest : Walk inner rest target) : Walk j (name :: rest) target

theorem toDigits_of_isDigit {c : Char} (h : c.isDigit = true) :
    c.toNat - '0'.toNat < 10 ∧ Nat.toDigits 10 (c.toNat - '0'.toNat) = [c] := by
  have hrange : 48 ≤ c.toNat ∧ c.toNat ≤ 57 := by
    simpa [Char.isDigit, UInt32.le_iff_toNat_le] using h
  have hlt : c.toNat - '0'.toNat < 10 := by
    change c.toNat - 48 < 10
    omega
  have hvalue := Nat.toNat_digitChar_of_lt_ten hlt
  have hsum : 48 + (c.toNat - '0'.toNat) = c.toNat := by
    change 48 + (c.toNat - 48) = c.toNat
    omega
  refine ⟨hlt, ?_⟩
  rw [Nat.toDigits_of_lt_base hlt, Char.toNat_inj.mp (hvalue.trans (by omega))]

/-- Digits that go on after a number other than zero stand after those of the number. -/
theorem toDigits_ofDigitChars {digits : List Char} (h : ∀ c ∈ digits, c.isDigit = true) {n : ℕ}
    (hn : 0 < n) :
    Nat.toDigits 10 (Nat.ofDigitChars 10 digits n) = Nat.toDigits 10 n ++ digits := by
  induction digits generalizing n with
  | nil => simp
  | cons c digits ih =>
    obtain ⟨hc, hdigits⟩ := List.forall_mem_cons.mp h
    obtain ⟨hlt, hdigit⟩ := toDigits_of_isDigit hc
    have hnext := Nat.toDigits_append_toDigits (by decide) hn hlt
    rw [Nat.ofDigitChars_cons, ih hdigits (by omega), ← hnext, hdigit, List.append_assoc]
    rfl

/-- A run of digits without a needless zero is what its value is written as. -/
theorem toDigits_digitsValue {digits : List Char} (h : IsDigits digits)
    (hleading : digits.head? = some '0' → digits = ['0']) :
    Nat.toDigits 10 (digitsValue digits) = digits := by
  obtain ⟨c, rest, rfl⟩ := List.exists_cons_of_ne_nil h.1
  obtain ⟨hc, hrest⟩ := List.forall_mem_cons.mp h.2
  obtain ⟨hlt, hdigit⟩ := toDigits_of_isDigit hc
  by_cases hzero : c.toNat - '0'.toNat = 0
  · rw [hzero, Nat.toDigits_zero] at hdigit
    obtain rfl : '0' = c := List.singleton_inj.mp hdigit
    rw [hleading rfl]
    rfl
  · rw [digitsValue, Nat.ofDigitChars_cons, Nat.mul_zero, Nat.zero_add,
      toDigits_ofDigitChars hrest (Nat.pos_of_ne_zero hzero), hdigit]
    rfl

/-- A step is an index exactly if it is what the index is written as. -/
theorem index?_eq_some_iff {step : List Char} {i : ℕ} :
    index? step = some i ↔ step = Nat.toDigits 10 i ∧ i < indexLimit := by
  constructor
  · intro h
    unfold index? at h
    dsimp only at h
    split_ifs at h with hform hlimit
    simp only [not_or, List.isEmpty_iff, Bool.not_eq_true', Bool.not_eq_false, List.all_eq_true,
      not_and, not_not] at hform
    obtain ⟨hne, hall, hleading⟩ := hform
    have hzero : step.head? = some '0' → step = ['0'] := by
      intro hhead
      obtain ⟨c, hsingle⟩ := List.length_eq_one_iff.mp (hleading hhead)
      subst hsingle
      cases hhead
      rfl
    cases h
    exact ⟨(toDigits_digitsValue ⟨hne, hall⟩ hzero).symm, hlimit⟩
  · rintro ⟨rfl, hlimit⟩
    obtain ⟨hne, hall⟩ := isDigits_toDigits i
    have hvalue : Nat.ofDigitChars 10 (Nat.toDigits 10 i) 0 = i := Nat.ofDigitChars_ten_toDigits
    unfold index?
    rw [if_neg, hvalue, if_pos hlimit]
    rintro (hempty | hother | ⟨hhead, hlength⟩)
    · exact hne (List.isEmpty_iff.mp hempty)
    · rw [List.all_eq_true.mpr hall] at hother
      cases hother
    · rw [toDigits_eq_of_head? hhead] at hlength
      exact hlength rfl

variable {depth : ℕ} {j inner target : Json} {name : String} {steps : List String}

theorem child?_member_iff {members : List (String × Json)} (h : Fields.Sorted members) :
    (object members).child? name.toList = some inner ↔ Enters (object members) name inner := by
  have hmem : members.lookup name = some inner ↔ (name, inner) ∈ members :=
    Fields.lookup_eq_some_iff_mem (Fields.nodup_of_sorted h)
  constructor
  · intro hchild
    simp only [child?, String.ofList_toList] at hchild
    exact .member (hmem.mp hchild)
  · intro henters
    cases henters with
    | member hmember =>
      simp only [child?, String.ofList_toList]
      exact hmem.mpr hmember

theorem child?_item_iff {items : List Json} :
    (array items).child? name.toList = some inner ↔ Enters (array items) name inner := by
  simp only [child?, Option.bind_eq_some_iff, index?_eq_some_iff]
  constructor
  · rintro ⟨i, ⟨hname, hlimit⟩, hitem⟩
    have hindex : name = toString i := by
      apply String.toList_injective
      rw [hname, Nat.toString_eq_repr, Nat.toList_repr]
    subst hindex
    exact .item hitem hlimit
  · intro henters
    cases henters with
    | @item _ i _ hitem hlimit =>
      exact ⟨i, ⟨by rw [Nat.toString_eq_repr, Nat.toList_repr], hlimit⟩, hitem⟩

/-- In a value that was read, members have names of their own, so that a step leads to one place. -/
theorem Readable.child?_eq_some_iff (h : Readable depth j) :
    j.child? name.toList = some inner ↔ Enters j name inner := by
  cases h with
  | array => exact child?_item_iff
  | object hsorted => exact child?_member_iff hsorted
  | _ => exact ⟨nofun, nofun⟩

theorem Readable.of_enters (h : Readable depth j) (henters : Enters j name inner) :
    ∃ depth', Readable depth' inner := by
  cases henters with
  | member hmember =>
    cases h with
    | object hsorted hmembers => exact ⟨_, hmembers _ hmember⟩
  | item hitem hlimit =>
    cases h with
    | array hitems => exact ⟨_, hitems _ (List.mem_of_getElem? hitem)⟩

theorem Readable.at?_eq_some_iff (h : Readable depth j) :
    j.at? (steps.map String.toList) = some target ↔ Walk j steps target := by
  induction steps generalizing depth j with
  | nil =>
    simp only [List.map_nil, at?, Option.some.injEq]
    constructor
    · rintro rfl
      exact .done j
    · intro hwalk
      cases hwalk
      rfl
  | cons name rest ih =>
    simp only [List.map_cons, at?, Option.bind_eq_some_iff]
    constructor
    · rintro ⟨inner, hchild, hrest⟩
      have henters := h.child?_eq_some_iff.mp hchild
      obtain ⟨depth', hinner⟩ := h.of_enters henters
      exact .step henters ((ih hinner).mp hrest)
    · intro hwalk
      cases hwalk with
      | @step _ inner _ _ _ henters hrest =>
        obtain ⟨depth', hinner⟩ := h.of_enters henters
        exact ⟨inner, h.child?_eq_some_iff.mpr henters, (ih hinner).mpr hrest⟩

end DecisionTables.Json
