import DecisionTables.Table.Basic
import Mathlib

/-!
# What building a table establishes

A draft is built exactly if the columns of each side are properly named, and the table then has
what the draft declares. Since names are distinct, a column is found by its name, and so is the
position of a derived column: the expression that is found for a name is that of the input column
of this name.
-/
namespace DecisionTables

section Columns

variable {columns : List Column} {name : String}

theorem ProperlyNamed.perm {columns' : List Column} (h : ProperlyNamed columns)
    (hperm : columns'.Perm columns) : ProperlyNamed columns' :=
  ⟨fun c hc => h.1 c (hperm.mem_iff.mp hc), ((hperm.map _).nodup_iff).mpr h.2⟩

theorem ProperlyNamed.map {f : Column → Column} (h : ProperlyNamed columns)
    (hf : ∀ c, (f c).name = c.name) : ProperlyNamed (columns.map f) := by
  have hnames : (columns.map f).map Column.name = columns.map Column.name := by simp [hf]
  refine ⟨fun c hc => ?_, hnames ▸ h.2⟩
  obtain ⟨d, hd, rfl⟩ := List.mem_map.mp hc
  rw [hf]
  exact h.1 d hd

theorem ProperlyNamed.eq_of_name (h : ProperlyNamed columns) {c d : Column} (hc : c ∈ columns)
    (hd : d ∈ columns) (heq : c.name = d.name) : c = d :=
  List.inj_on_of_nodup_map h.2 hc hd heq

theorem columnNamed?_eq_some_iff (h : ProperlyNamed columns) {c : Column} :
    columnNamed? columns name = some c ↔ c ∈ columns ∧ c.name = name := by
  constructor
  · intro hfind
    exact ⟨List.mem_of_find?_eq_some hfind, by simpa using List.find?_some hfind⟩
  · rintro ⟨hc, rfl⟩
    have hsome : (columnNamed? columns c.name).isSome = true :=
      List.find?_isSome.mpr ⟨c, hc, by simp⟩
    obtain ⟨d, hd⟩ := Option.isSome_iff_exists.mp hsome
    have hname : d.name = c.name := by simpa using List.find?_some hd
    rw [hd, h.eq_of_name (List.mem_of_find?_eq_some hd) hc hname]

theorem ProperlyNamed.nodup_filterMap {α : Type} (h : ProperlyNamed columns)
    (f : Column → Option α) :
    ((columns.filterMap fun c => (f c).map fun v => (c.name, v)).map Prod.fst).Nodup := by
  refine h.2.sublist ?_
  rw [List.map_filterMap, ← List.filterMap_eq_map]
  clear h
  induction columns with
  | nil => exact List.Sublist.slnil
  | cons c rest ih =>
    cases hc : f c with
    | none => simpa [List.filterMap_cons, hc] using ih.trans (List.sublist_cons_self _ _)
    | some v => simpa [List.filterMap_cons, hc] using ih

theorem get?_ofList_filterMap {α : Type} (h : ProperlyNamed columns) (f : Column → Option α)
    (name : String) :
    (Fields.ofList (columns.filterMap fun c => (f c).map fun v => (c.name, v))).get? name =
      (columnNamed? columns name).bind f := by
  refine Option.ext fun v => ?_
  rw [Fields.get?_ofList (h.nodup_filterMap f),
    Fields.lookup_eq_some_iff_mem (h.nodup_filterMap f), Option.bind_eq_some_iff]
  simp only [List.mem_filterMap, Option.map_eq_some_iff, Prod.mk.injEq,
    columnNamed?_eq_some_iff h]
  constructor
  · rintro ⟨c, hc, w, hw, hname, rfl⟩
    exact ⟨c, ⟨hc, hname⟩, hw⟩
  · rintro ⟨c, ⟨hc, hname⟩, hw⟩
    exact ⟨c, hc, v, hw, hname, rfl⟩

theorem nodup_derivedPositions (h : ProperlyNamed columns) :
    (((columns.zipIdx.filter fun e => e.1.expression.isSome).map
      fun e => (e.1.name, e.2)).map Prod.fst).Nodup := by
  have hnames : columns.map Column.name = columns.zipIdx.map fun e => e.1.name := by
    conv_lhs => rw [← List.zipIdx_map_fst 0 columns, List.map_map]
    rfl
  rw [List.map_map]
  exact (hnames ▸ h.2).sublist (List.filter_sublist.map _)

theorem get?_derivedPositions_eq_some_iff (h : ProperlyNamed columns) {i : ℕ} :
    (derivedPositions columns).get? name = some i ↔
      ∃ c, columns[i]? = some c ∧ c.name = name ∧ c.expression.isSome = true := by
  rw [derivedPositions, Fields.get?_ofList (nodup_derivedPositions h),
    Fields.lookup_eq_some_iff_mem (nodup_derivedPositions h)]
  simp only [List.mem_map, List.mem_filter, Prod.exists, List.mk_mem_zipIdx_iff_getElem?,
    Prod.mk.injEq]
  constructor
  · rintro ⟨c, j, ⟨hget, hsome⟩, hname, rfl⟩
    exact ⟨c, hget, hname, hsome⟩
  · rintro ⟨c, hget, hname, hsome⟩
    exact ⟨c, i, ⟨hget, hsome⟩, hname, rfl⟩

end Columns

namespace Table

/-- The expression found for a name is that of the input column of this name. -/
theorem derivation?_eq_bind (table : Table) (name : String) :
    table.derivation? name = (columnNamed? table.inputs name).bind Column.expression := by
  refine Option.ext fun source => ?_
  rw [derivation?, Option.bind_eq_some_iff, Option.bind_eq_some_iff]
  simp only [get?_derivedPositions_eq_some_iff table.inputs_named,
    columnNamed?_eq_some_iff table.inputs_named, Option.bind_eq_some_iff]
  constructor
  · rintro ⟨i, ⟨c, hget, hname, hsome⟩, d, hget', hd⟩
    rw [hget, Option.some.injEq] at hget'
    subst hget'
    exact ⟨c, ⟨List.mem_of_getElem? hget, hname⟩, hd⟩
  · rintro ⟨c, ⟨hc, hname⟩, hd⟩
    obtain ⟨i, hget⟩ := List.getElem?_of_mem hc
    exact ⟨i, ⟨c, hget, hname, by rw [hd, Option.isSome_some]⟩, c, hget, hd⟩

end Table

namespace Draft

def table (draft : Draft) (hInputs : ProperlyNamed draft.inputs)
    (hOutputs : ProperlyNamed draft.outputs) : Table where
  policy := draft.policy
  aggregation := draft.aggregation
  inputs := draft.inputs
  outputs := draft.outputs
  rules := numberRules 1 draft.rules
  inputs_named := hInputs
  outputs_named := hOutputs

theorem build_eq_ok (draft : Draft) (hInputs : ProperlyNamed draft.inputs)
    (hOutputs : ProperlyNamed draft.outputs) :
    draft.build = .ok (draft.table hInputs hOutputs) := by
  unfold build
  split
  case h_1 fault hfault =>
    rw [nameFault?_eq_none_iff.mpr hInputs] at hfault
    cases hfault
  case h_2 =>
    split
    case h_1 fault hfault =>
      rw [nameFault?_eq_none_iff.mpr hOutputs] at hfault
      cases hfault
    case h_2 => rfl

/-- Only properly named columns make a table, and it is the table of the draft. -/
theorem exists_of_build_eq_ok {draft : Draft} {t : Table} (h : draft.build = .ok t) :
    ∃ hInputs hOutputs, t = draft.table hInputs hOutputs := by
  unfold build at h
  split at h
  case h_1 => cases h
  case h_2 hInputs =>
    split at h
    case h_1 => cases h
    case h_2 hOutputs =>
      cases h
      exact ⟨nameFault?_eq_none_iff.mp hInputs, nameFault?_eq_none_iff.mp hOutputs, rfl⟩

/-- The faults of the inputs count before those of the outputs. -/
theorem build_eq_error_iff (draft : Draft) (e : BuildError) : draft.build = .error e ↔
    nameFault? .input [] 1 draft.inputs = some e ∨
      nameFault? .input [] 1 draft.inputs = none ∧
        nameFault? .output [] 1 draft.outputs = some e := by
  unfold build
  split
  case h_1 fault hInputs => simp [hInputs]
  case h_2 hInputs =>
    split
    case h_1 fault hOutputs => simp [hInputs, hOutputs]
    case h_2 hOutputs => simp [hInputs, hOutputs]

end Draft
end DecisionTables
