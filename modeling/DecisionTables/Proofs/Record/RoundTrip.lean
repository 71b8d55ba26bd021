import DecisionTables.Record
import DecisionTables.Proofs.Json.Shapes
import Mathlib

/-!
# Records written as JSON

JSON has no numbers that are not finite, and no dates. Main statement: the JSON text of a record is
read as the record with null for every such number and the text of every date, and from then on
writing and reading change nothing.
-/
namespace DecisionTables

namespace Value

def written (zone : Calendar.Zone) : Value → Value
  | number .nan => null
  | number (.infinite _) => null
  | date instant => string (instant.toText zone)
  | v => v

variable (zone : Calendar.Zone) (v : Value)

theorem ofJson_toJson : ofJson (toJson zone v) = v.written zone := by
  cases v with
  | number x => cases x <;> rfl
  | _ => rfl

theorem written_written : (v.written zone).written zone = v.written zone := by
  cases v with
  | number x => cases x <;> rfl
  | _ => rfl

theorem readable_toJson (depth : ℕ) : Json.Readable depth (toJson zone v) := by
  cases v with
  | null => exact .null
  | bool b => exact .bool b
  | number x =>
    cases x with
    | finite x => exact .real x
    | nan => exact .null
    | infinite negative => exact .null
  | string text => exact .string text
  | date instant => exact .string _

end Value

namespace FactRecord

def written (zone : Calendar.Zone) (record : FactRecord) : FactRecord :=
  Fields.map (Value.written zone) record

variable (zone : Calendar.Zone) (record : FactRecord)

theorem written_written : (record.written zone).written zone = record.written zone := by
  apply Fields.ext
  simp [written, Fields.map, Value.written_written]

theorem readable_toJson : Json.Readable Json.depthLimit (toJson zone record) := by
  apply Json.Readable.object (Fields.map (Value.toJson zone) record).sorted
  intro m hm
  obtain ⟨e, _, rfl⟩ := List.mem_map.mp hm
  exact e.2.readable_toJson zone _

theorem ofJson_toJson : ofJson (toJson zone record) = .ok (record.written zone) := by
  have hmap : Fields.map Value.ofJson (Fields.map (Value.toJson zone) record) =
      record.written zone := by
    apply Fields.ext
    simp [written, Fields.map, Value.ofJson_toJson]
  rw [toJson, Json.ofFields, ofJson, Fields.ofList_entries, hmap]

theorem ofText_toText_eq : ofText (toJson zone record).toText = .ok (record.written zone) := by
  rw [ofText, (readable_toJson zone record).ofText_own_text]
  dsimp only
  rw [ofJson_toJson]

/-- A record is read back from its JSON text with the same keys, each with what is left of its
value. What was read back once is read back unchanged. -/
theorem exists_ofText_toText_eq_ok :
    ∃ record', ofText (toJson zone record).toText = .ok record' ∧
      (∀ key, record'.get? key = (record.get? key).map (Value.written zone)) ∧
      ofText (toJson zone record').toText = .ok record' := by
  refine ⟨record.written zone, ofText_toText_eq zone record, ?_, ?_⟩
  · exact fun key => Fields.get?_map (Value.written zone) record key
  · rw [ofText_toText_eq, written_written]

end FactRecord
end DecisionTables
