import DecisionTables.Json.Basic
import DecisionTables.Json.Reader
import DecisionTables.Value.Basic

/-!
# Fact records

The facts that a table is evaluated on: a map from names to values. A dotted path names a fact of
that very name, or else a value inside the JSON text of a fact whose name is the path up to one of
its dots; the longest such name that leads to a value counts.
-/
namespace DecisionTables

abbrev FactRecord := Fields Value

/-- A JSON value of the given kind is no record. -/
structure RecordError where
  kind : String
  deriving DecidableEq

def RecordError.message (e : RecordError) : String :=
  "fact record must be a JSON object, found " ++ e.kind

namespace FactRecord

def ofJson : Json → Except RecordError FactRecord
  | .object members => .ok ((Fields.ofList members).map Value.ofJson)
  | j => .error ⟨j.kind⟩

def toJson (zone : Calendar.Zone) (record : FactRecord) : Json :=
  .ofFields (Fields.map (Value.toJson zone) record)

/-- What stands before and after each dot of a path, from the last dot to the first. -/
def splitsAtDots : List Char → List (List Char × List Char)
  | [] => []
  | c :: rest =>
    ((splitsAtDots rest).map fun (key, inner) => (c :: key, inner)) ++
      if c = '.' then [([], rest)] else []

/-- The steps that the part of a path inside a fact writes; a slash separates them as a dot does. -/
def stepsOf (inner : List Char) : List (List Char) :=
  (inner.splitOnP fun c => c = '.' || c = '/').map Json.unescapeStep

def nested? (record : FactRecord) (key inner : List Char) : Option Value :=
  match record.get? (String.ofList key) with
  | some (.string text) =>
    match Json.ofText text with
    | .ok j => (j.at? (stepsOf inner)).map Value.ofJson
    | .error _ => none
  | _ => none

def lookup (record : FactRecord) (path : String) : Option Value :=
  match record.get? path with
  | some v => some v
  | none => (splitsAtDots path.toList).findSome? fun (key, inner) => nested? record key inner

end FactRecord

/-- Why a text is no record: it is no JSON, or JSON of another kind. -/
inductive RecordTextError where
  | json (fault : Json.Fault)
  | record (error : RecordError)
  deriving DecidableEq

def FactRecord.ofText (text : String) : Except RecordTextError FactRecord :=
  match Json.ofText text with
  | .error fault => .error (.json fault)
  | .ok j =>
    match ofJson j with
    | .error e => .error (.record e)
    | .ok record => .ok record

end DecisionTables
