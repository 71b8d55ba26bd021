import DecisionTables.Number.Arithmetic
import Mathlib

/-!
# The order of numbers

All numbers but not-a-number have a place in a linear order, in which the two zeros stand at one
place. To take the lesser or the greater of two numbers is to choose by place, and what such choices
leave of a list is one of its members that no other one goes before.
-/
namespace DecisionTables

/-- A choice between two things is one of them, and leads both. -/
structure Chooses {α : Type} (f : α → α → α) (leads : α → α → Prop) : Prop where
  eq_or_eq : ∀ a b, f a b = a ∨ f a b = b
  left : ∀ a b, leads (f a b) a
  right : ∀ a b, leads (f a b) b
  refl : ∀ a, leads a a
  trans : ∀ {a b c}, leads a b → leads b c → leads a c

/-- Choosing on and on leaves a member of the list that leads all its members. -/
theorem Chooses.foldl {α : Type} {f : α → α → α} {leads : α → α → Prop} (h : Chooses f leads)
    (first : α) (rest : List α) :
    rest.foldl f first ∈ first :: rest ∧ ∀ a ∈ first :: rest, leads (rest.foldl f first) a := by
  induction rest generalizing first with
  | nil => exact ⟨List.mem_cons_self, fun a ha => by rw [List.mem_singleton.mp ha]; exact h.refl _⟩
  | cons next rest ih =>
    obtain ⟨hmem, hleads⟩ := ih (f first next)
    have hchoice := hleads _ List.mem_cons_self
    rw [List.foldl_cons]
    constructor
    · rcases List.mem_cons.mp hmem with heq | hmem
      · rw [heq]
        rcases h.eq_or_eq first next with heq | heq <;> simp [heq]
      · exact List.mem_cons_of_mem _ (List.mem_cons_of_mem _ hmem)
    · intro a ha
      rcases List.mem_cons.mp ha with rfl | ha
      · exact h.trans hchoice (h.left _ _)
      · rcases List.mem_cons.mp ha with rfl | ha
        · exact h.trans hchoice (h.right _ _)
        · exact hleads a (List.mem_cons_of_mem _ ha)

theorem FiniteNumber.order_swap (x y : FiniteNumber) : x.order y = (y.order x).swap := by
  rw [order, order, ← Std.OrientedCmp.eq_swap]

namespace Number

/-- The place of a number among the counts of units. That of not-a-number means nothing. -/
def place : Number → WithBot (WithTop ℤ)
  | nan => ⊥
  | infinite true => ⊥
  | infinite false => ((⊤ : WithTop ℤ) : WithBot (WithTop ℤ))
  | finite x => ((x.signedUnits : WithTop ℤ) : WithBot (WithTop ℤ))

variable {x y z : Number}

theorem less_iff : x.less y = true ↔ x.isNaN = false ∧ y.isNaN = false ∧ x.place < y.place := by
  rcases x with _ | ⟨_ | _⟩ | x <;> rcases y with _ | ⟨_ | _⟩ | y <;>
    simp [less, order?, isNaN, place, FiniteNumber.order, compare_lt_iff_lt]
  exact WithBot.coe_lt_coe.mpr (WithTop.coe_lt_top _)

theorem equal_iff : x.equal y = true ↔ x.isNaN = false ∧ y.isNaN = false ∧ x.place = y.place := by
  rcases x with _ | ⟨_ | _⟩ | x <;> rcases y with _ | ⟨_ | _⟩ | y <;>
    simp [equal, order?, isNaN, place, FiniteNumber.order]

/-- Less or equal; not-a-number is so to nothing. -/
def atMost (x y : Number) : Bool := x.less y || x.equal y

theorem atMost_iff :
    x.atMost y = true ↔ x.isNaN = false ∧ y.isNaN = false ∧ x.place ≤ y.place := by
  rw [atMost, Bool.or_eq_true, less_iff, equal_iff, le_iff_lt_or_eq]
  tauto

theorem equal_symm (h : x.equal y = true) : y.equal x = true := by
  obtain ⟨hx, hy, hplace⟩ := equal_iff.mp h
  exact equal_iff.mpr ⟨hy, hx, hplace.symm⟩

theorem equal_trans (hxy : x.equal y = true) (hyz : y.equal z = true) : x.equal z = true := by
  obtain ⟨hx, _, hxy⟩ := equal_iff.mp hxy
  obtain ⟨_, hz, hyz⟩ := equal_iff.mp hyz
  exact equal_iff.mpr ⟨hx, hz, hxy.trans hyz⟩

theorem order?_swap (x y : Number) : x.order? y = (y.order? x).map Ordering.swap := by
  rcases x with _ | ⟨_ | _⟩ | x <;> rcases y with _ | ⟨_ | _⟩ | y <;>
    simp [order?, ← FiniteNumber.order_swap]

theorem isNaN_of_order? (h : x.order? y ≠ none) : x.isNaN = false ∧ y.isNaN = false := by
  cases x <;> cases y <;> simp [order?, isNaN] at h ⊢

theorem order?_eq_compare (hx : x.isNaN = false) (hy : y.isNaN = false) :
    x.order? y = some (compare x.place y.place) := by
  rcases lt_trichotomy x.place y.place with hlt | heq | hgt
  · rw [compare_lt_iff_lt.mpr hlt]
    simpa [less] using less_iff.mpr ⟨hx, hy, hlt⟩
  · rw [compare_eq_iff_eq.mpr heq]
    simpa [equal] using equal_iff.mpr ⟨hx, hy, heq⟩
  · have hless : y.order? x = some .lt := by simpa [less] using less_iff.mpr ⟨hy, hx, hgt⟩
    rw [compare_gt_iff_gt.mpr hgt, order?_swap, hless]
    rfl

def Same (x y : Number) : Prop := x.equal y = true ∨ x.isNaN = true ∧ y.isNaN = true

/-- A number that goes before another one by place, and before not-a-number in any case. -/
def Leads (before : WithBot (WithTop ℤ) → WithBot (WithTop ℤ) → Prop) (x y : Number) : Prop :=
  y.isNaN = true ∨ x.isNaN = false ∧ before x.place y.place

section Leads

variable {before : WithBot (WithTop ℤ) → WithBot (WithTop ℤ) → Prop}

theorem leads_refl (hrefl : ∀ p, before p p) (x : Number) : Leads before x x := by
  cases hx : x.isNaN with
  | true => exact .inl hx
  | false => exact .inr ⟨hx, hrefl _⟩

/-- What leads a number is a number that stands before it. -/
theorem Leads.of_number (h : Leads before x y) (hy : y.isNaN = false) :
    x.isNaN = false ∧ before x.place y.place :=
  h.resolve_left (ne_true_of_eq_false hy)

theorem Leads.of_nan (h : Leads before x y) (hx : x.isNaN = true) : y.isNaN = true :=
  h.resolve_right fun hbefore => ne_true_of_eq_false hbefore.1 hx

theorem leads_trans (htrans : ∀ {p q r}, before p q → before q r → before p r)
    (hxy : Leads before x y) (hyz : Leads before y z) : Leads before x z := by
  rcases hyz with hz | ⟨hy, hyz⟩
  · exact .inl hz
  · obtain ⟨hx, hxy⟩ := hxy.of_number hy
    exact .inr ⟨hx, htrans hxy hyz⟩

theorem leads_total (htotal : ∀ p q, before p q ∨ before q p) (x y : Number) :
    Leads before x y ∨ Leads before y x := by
  cases hx : x.isNaN with
  | true => exact .inr (.inl hx)
  | false =>
    cases hy : y.isNaN with
    | true => exact .inl (.inl hy)
    | false => exact (htotal _ _).imp (fun h => .inr ⟨hx, h⟩) fun h => .inr ⟨hy, h⟩

theorem same_of_leads (hantisymm : ∀ {p q}, before p q → before q p → p = q)
    (hxy : Leads before x y) (hyx : Leads before y x) : Same x y := by
  cases hx : x.isNaN with
  | true => exact .inr ⟨hx, hxy.of_nan hx⟩
  | false =>
    obtain ⟨hy, hyx⟩ := hyx.of_number hx
    exact .inl (equal_iff.mpr ⟨hx, hy, hantisymm (hxy.of_number hy).2 hyx⟩)

end Leads

theorem place_le_of_not_less (hx : x.isNaN = false) (hy : y.isNaN = false)
    (h : ¬ x.less y = true) : y.place ≤ x.place :=
  not_lt.mp fun hlt => h (less_iff.mpr ⟨hx, hy, hlt⟩)

/-- A number does not lead those that are greater, and not-a-number leads no number. -/
theorem not_leads_iff :
    ¬ Leads (· ≥ ·) x y ↔ (x.less y || (x.isNaN && !y.isNaN)) = true := by
  rw [Bool.or_eq_true, less_iff, Leads]
  cases x.isNaN <;> cases y.isNaN <;> simp

/-- A choice that gives up not-a-number, and otherwise the number that a test finds behind. -/
theorem chooses_by_place {f : Number → Number → Number} {behind : Number → Number → Bool}
    {before : WithBot (WithTop ℤ) → WithBot (WithTop ℤ) → Prop}
    (hf : ∀ x y, f x y = if x.isNaN then y else if behind x y then y else x)
    (htrue : ∀ x y, behind x y = true → y.isNaN = false ∧ before y.place x.place)
    (hfalse : ∀ x y, x.isNaN = false → y.isNaN = false → ¬ behind x y = true →
      before x.place y.place)
    (hrefl : ∀ p, before p p) (htrans : ∀ {p q r}, before p q → before q r → before p r) :
    Chooses f (Leads before) where
  eq_or_eq x y := by
    rw [hf]
    split_ifs <;> simp
  left x y := by
    rw [hf]
    split_ifs with hx hbehind
    · exact .inl hx
    · exact .inr (htrue x y hbehind)
    · exact leads_refl hrefl x
  right x y := by
    rw [hf]
    split_ifs with hx hbehind
    · exact leads_refl hrefl y
    · exact leads_refl hrefl y
    · cases hy : y.isNaN with
      | true => exact .inl hy
      | false =>
        rw [Bool.not_eq_true] at hx
        exact .inr ⟨hx, hfalse x y hx hy hbehind⟩
  refl := leads_refl hrefl
  trans := leads_trans htrans

/-- A bound of some numbers among which it stands. Not-a-number is passed over where a number is
among them. -/
structure IsExtreme (bounds : Number → Number → Bool) (xs : List Number) (x : Number) : Prop where
  isNaN_iff : x.isNaN = true ↔ ∀ y ∈ xs, y.isNaN = true
  exists_equal : x.isNaN = false → ∃ y ∈ xs, x.equal y = true
  bounds_all : x.isNaN = false → ∀ y ∈ xs, y.isNaN = false → bounds x y = true

/-- Choosing on and on leaves an extreme one of the numbers. -/
theorem isExtreme_foldl {f : Number → Number → Number} {bounds : Number → Number → Bool}
    {before : WithBot (WithTop ℤ) → WithBot (WithTop ℤ) → Prop} (h : Chooses f (Leads before))
    (hbounds : ∀ x y, x.isNaN = false → y.isNaN = false → before x.place y.place →
      bounds x y = true) (first : Number) (rest : List Number) :
    IsExtreme bounds (first :: rest) (rest.foldl f first) := by
  obtain ⟨hmem, hleads⟩ := h.foldl first rest
  refine ⟨⟨fun hnan y hy => (hleads y hy).of_nan hnan, fun hall => hall _ hmem⟩,
    fun hx => ⟨_, hmem, equal_iff.mpr ⟨hx, hx, rfl⟩⟩, fun hx y hy hynumber => ?_⟩
  exact hbounds _ _ hx hynumber ((hleads y hy).of_number hynumber).2

theorem chooses_lesser : Chooses lesser (Leads (· ≤ ·)) := by
  refine chooses_by_place (fun _ _ => rfl) (fun x y hless => ?_) (fun x y hx hy hless => ?_)
    le_refl le_trans
  · obtain ⟨hy, _, hlt⟩ := less_iff.mp hless
    exact ⟨hy, hlt.le⟩
  · exact place_le_of_not_less hy hx hless

theorem chooses_greater : Chooses greater (Leads (· ≥ ·)) := by
  refine chooses_by_place (fun _ _ => rfl) (fun x y hless => ?_) (fun x y hx hy hless => ?_)
    le_refl ge_trans
  · obtain ⟨_, hy, hlt⟩ := less_iff.mp hless
    exact ⟨hy, hlt.le⟩
  · exact place_le_of_not_less hx hy hless

theorem isExtreme_lesser (first : Number) (rest : List Number) :
    IsExtreme atMost (first :: rest) (rest.foldl lesser first) :=
  isExtreme_foldl chooses_lesser (fun _ _ hx hy hle => atMost_iff.mpr ⟨hx, hy, hle⟩) first rest

theorem isExtreme_greater (first : Number) (rest : List Number) :
    IsExtreme (fun x y => y.atMost x) (first :: rest) (rest.foldl greater first) :=
  isExtreme_foldl chooses_greater (fun _ _ hx hy hge => atMost_iff.mpr ⟨hy, hx, hge⟩) first rest

end Number
end DecisionTables
