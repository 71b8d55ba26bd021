import DecisionTables.Config.Build
import DecisionTables.Config.Encoding
import DecisionTables.Proofs.Json.Shapes

/-!
# Configurations read back

What a configuration that was read can hold: default values other than `null`, payloads and
priorities that JSON can write. Main statement: such a configuration reads back from its own text,
in whichever form it was written before.
-/
namespace DecisionTables
open Json

namespace Payload

theorem readable_of_ofJson? {depth : ℕ} {j : Json} {payload : Payload} (hj : Json.Readable depth j)
    (h : ofJson? j = some payload) : Json.Readable depth payload.toJson := by
  cases hj with
  | string text =>
    cases h
    exact .string text
  | object hsorted hmembers =>
    cases h
    rw [toJson, ofFields_ofList hsorted]
    exact .object hsorted hmembers
  | _ => cases h

theorem ofJson?_toJson (payload : Payload) : ofJson? payload.toJson = some payload := by
  cases payload with
  | object members => rw [toJson, ofFields, ofJson?, Fields.ofList_entries]
  | text t => rfl

theorem gives_shape (depth : ℕ) :
    shape.Gives depth fun payload => Json.Readable depth payload.toJson := by
  intro text payload rest h
  obtain ⟨⟨j, after⟩, hj, h⟩ := exists_of_bind_eq_ok h
  dsimp only at h
  split at h
  case h_1 payload' hpayload =>
    cases h
    exact readable_of_ofJson? (Shape.gives_any depth _ _ _ hj) hpayload
  case h_2 => cases h

theorem reads_shape {depth : ℕ} {payload : Payload} (h : Json.Readable depth payload.toJson) :
    shape.Reads depth payload.toJson payload := by
  intro rest hrest
  simp only [shape, Shape.reads_any h rest hrest, ofJson?_toJson, bind, Except.bind]

end Payload

namespace ColumnConfig

def Readable (depth : ℕ) (c : ColumnConfig) : Prop :=
  ∀ j ∈ c.default, j ≠ .null ∧ Json.Readable depth j

theorem gives_shape (depth : ℕ) : shape.Gives (depth + 1) (Readable depth) := by
  refine Shape.gives_record ?_ (by simp [Readable])
  simp only [List.forall_mem_cons]
  refine ⟨?_, ?_, ?_, ?_, by simp⟩
  · exact Field.keeps_mandatory _ (Shape.gives_something _ _) fun _ _ h _ => h
  · exact Field.keeps_defaulted _ (Shape.gives_something _ _) fun _ _ h _ => h
  · exact Field.keeps_defaulted _ (Shape.gives_something _ _) fun _ _ h _ => h
  · exact Field.keeps_defaulted _ (Shape.gives_optional_any _) fun _ _ _ h => h

theorem reads_shape {depth : ℕ} {c : ColumnConfig} (h : c.Readable depth) :
    shape.Reads (depth + 1) c.toJson c := by
  refine Shape.reads_record (by decide) ?_
  rw [← List.append_nil (optionalMember "defaultValue" id c.default)]
  simp only [List.append_assoc]
  refine .mandatory (Shape.reads_text depth c.name) ?_
  refine .optional (fun t _ => ⟨Shape.reads_text depth t, by simp⟩) rfl ?_
  refine .optional (fun t _ => ⟨Shape.reads_text depth t, by simp⟩) rfl ?_
  refine .optional (fun j hj => ⟨Shape.reads_any (h j hj).2, (h j hj).1⟩) rfl ?_
  exact .nil

end ColumnConfig

namespace RuleConfig

structure Readable (depth : ℕ) (r : RuleConfig) : Prop where
  conditions : Json.Readable depth r.conditions.toJson
  outputs : Json.Readable depth r.outputs.toJson
  priority : ∀ p ∈ r.priority, ∃ x, p = .finite x

theorem gives_shape (depth : ℕ) : shape.Gives (depth + 2) (Readable (depth + 1)) := by
  have hempty : Json.Readable (depth + 1) (Payload.toJson (.object .empty)) :=
    .object .nil (by simp [Fields.empty])
  refine Shape.gives_record ?_ ⟨hempty, hempty, by simp⟩
  simp only [List.forall_mem_cons]
  refine ⟨?_, ?_, ?_, ?_, ?_, by simp⟩
  · exact Field.keeps_defaulted _ (Shape.gives_something _ _)
      fun _ _ h _ => ⟨h.conditions, h.outputs, h.priority⟩
  · exact Field.keeps_defaulted _ (Payload.gives_shape _)
      fun _ _ h hp => ⟨hp, h.outputs, h.priority⟩
  · exact Field.keeps_defaulted _ (Payload.gives_shape _)
      fun _ _ h hp => ⟨h.conditions, hp, h.priority⟩
  · exact Field.keeps_defaulted _ (Shape.gives_number _).optional
      fun _ _ h hp => ⟨h.conditions, h.outputs, hp⟩
  · exact Field.keeps_defaulted _ (Shape.gives_something _ _)
      fun _ _ h _ => ⟨h.conditions, h.outputs, h.priority⟩

theorem reads_priority (depth : ℕ) {p : Number} (h : ∃ x, p = .finite x) :
    Shape.number.Reads depth ((Value.number p).toJson .letter) p ∧
      (Value.number p).toJson .letter ≠ .null := by
  obtain ⟨x, rfl⟩ := h
  exact ⟨Shape.reads_number depth x, by simp [Value.toJson]⟩

theorem reads_shape {depth : ℕ} {r : RuleConfig} (h : r.Readable depth) :
    shape.Reads (depth + 1) r.toJson r := by
  refine Shape.reads_record (by decide) ?_
  rw [← List.append_nil (optionalMember "annotation" .string r.annotation)]
  simp only [List.append_assoc]
  refine .optional (fun t _ => ⟨Shape.reads_text depth t, by simp⟩) rfl ?_
  refine .defaulted (Payload.reads_shape h.conditions) ?_
  refine .defaulted (Payload.reads_shape h.outputs) ?_
  refine .optional (fun p hp => reads_priority depth (h.priority p hp)) rfl ?_
  refine .optional (fun t _ => ⟨Shape.reads_text depth t, by simp⟩) rfl ?_
  exact .nil

end RuleConfig

namespace TableConfig

structure Readable (depth : ℕ) (t : TableConfig) : Prop where
  inputs : ∀ c ∈ t.inputs, c.Readable depth
  outputs : ∀ c ∈ t.outputs, c.Readable depth
  rules : ∀ r ∈ t.rules, r.Readable depth

theorem gives_shape (depth : ℕ) : shape.Gives (depth + 4) (Readable (depth + 1)) := by
  refine Shape.gives_record ?_ ⟨by simp, by simp, by simp⟩
  simp only [List.forall_mem_cons]
  refine ⟨?_, ?_, ?_, ?_, ?_, by simp⟩
  · exact Field.keeps_mandatory _ (Shape.gives_something _ _)
      fun _ _ h _ => ⟨h.inputs, h.outputs, h.rules⟩
  · exact Field.keeps_defaulted _ (Shape.gives_something _ _)
      fun _ _ h _ => ⟨h.inputs, h.outputs, h.rules⟩
  · exact Field.keeps_defaulted _ (ColumnConfig.gives_shape _).list
      fun _ _ h hcs => ⟨hcs, h.outputs, h.rules⟩
  · exact Field.keeps_defaulted _ (ColumnConfig.gives_shape _).list
      fun _ _ h hcs => ⟨h.inputs, hcs, h.rules⟩
  · exact Field.keeps_defaulted _ (RuleConfig.gives_shape _).list
      fun _ _ h hrs => ⟨h.inputs, h.outputs, hrs⟩

theorem reads_shape {depth : ℕ} {t : TableConfig} (h : t.Readable depth) :
    shape.Reads (depth + 3) t.toJson t := by
  have hinputs := Shape.reads_list fun c hc => ColumnConfig.reads_shape (h.inputs c hc)
  have houtputs := Shape.reads_list fun c hc => ColumnConfig.reads_shape (h.outputs c hc)
  have hrules := Shape.reads_list fun r hr => RuleConfig.reads_shape (h.rules r hr)
  refine Shape.reads_record (by decide) ?_
  simp only [List.append_assoc]
  refine .mandatory (Shape.reads_text _ t.policy) ?_
  refine .optional (fun a _ => ⟨Shape.reads_text _ a, by simp⟩) rfl ?_
  refine .defaulted hinputs ?_
  refine .defaulted houtputs ?_
  refine .defaulted hrules ?_
  exact .nil

/-- A configuration that was read from a text reads back from the text that it is written as, and
so builds the same table. -/
theorem ofText_toText_of_ofText {text : String} {t : TableConfig} (h : ofText text = .ok t) :
    ∃ t', ofText t.toText = .ok t' ∧ t' = t ∧ t'.build = t.build := by
  -- The table, a list and a rule in it are open where a payload starts: three of 127 containers.
  have hreadable : t.Readable 124 := (gives_shape 123).ofTextAs h
  have hread : ofText t.toText = .ok t := (reads_shape hreadable).ofTextAs
  exact ⟨t, hread, rfl, rfl⟩

/-- The table and a column as arrays, a payload as text, and a default value of mixed kinds. -/
def mixedText : String :=
  "[\"ANY\",null,[[\"age\"]],[\x7b\"type\":null,\"name\":\"t\\u0131\\u001f\",
    \"defaultValue\":[-0,15e-1,\x7b\"b\":7,\"a\":null\x7d]\x7d],
    [\x7b\"conditions\":\"\x7b\\\"age\\\":1\x7d\",\"priority\":-3,\"x\":[]\x7d]]"

theorem representable_threeHalves : Representable (3 * twoTo 1073) := by decide +kernel

def mixed : TableConfig where
  policy := "ANY"
  aggregation := none
  inputs := [⟨"age", none, none, none⟩]
  outputs := [⟨"tı\u001f", none, none, some (.array [.real (.zero true),
    .real ⟨false, 3 * twoTo 1073, representable_threeHalves⟩,
    .object [("a", .null), ("b", .int 7)]])⟩]
  rules := [⟨none, .text "\x7b\"age\":1\x7d", .object .empty, some (.ofInt (-3)), none⟩]

theorem ofText_toText_of_ofText_mixed :
    ofText mixedText = .ok mixed ∧
      ∃ t', ofText mixed.toText = .ok t' ∧ t' = mixed ∧ t'.build = mixed.build := by
  have h : ofText mixedText = .ok mixed := by decide +kernel
  exact ⟨h, ofText_toText_of_ofText h⟩

end TableConfig

end DecisionTables
