import DecisionTables.Proofs.Json.Values
import DecisionTables.Proofs.Record.RoundTrip
import DecisionTables.Proofs.Table.Additions
import DecisionTables.Proofs.Table.OutputOrder

/-!
# The order of rendered outputs

The text by which outputs are ordered marks universal time with a letter, the text in which they are
rendered with an offset. Main statement: the two order outputs alike, unless one has a date in some
column and the text of what the other has there lies between the two texts of the date.
-/
namespace DecisionTables
open Text Json

namespace Json

theorem apart_quoted {s t : String} (h : s ≠ t) : Apart (quoted s) (quoted t) := by
  have hread : ∀ {s t : String}, quoted s <+: quoted t → s = t := by
    intro s t ⟨tail, htail⟩
    rw [quoted_append, ← List.append_nil (quoted t), quoted_append] at htail
    have ht := quotedText_quoted t []
    rw [← (List.cons.inj htail).2, quotedText_quoted] at ht
    exact congrArg Prod.fst (Except.ok.inj ht)
  exact apart_of_not_prefix (fun hp => h (hread hp)) (fun hp => h (hread hp).symm)

/-- The texts of different values part before the next value begins. -/
theorem Readable.apart {depth : ℕ} {j j' : Json} (h : Readable depth j) (h' : Readable depth j')
    (hne : j ≠ j') {c d : Char} (hc : isNumberPart c = false) (hd : isNumberPart d = false) :
    Apart (j.toChars ++ [c]) (j'.toChars ++ [d]) := by
  -- Otherwise one text could be read in two ways.
  have hread : ∀ {j j' : Json} {c d : Char}, Readable depth j → Readable depth j' →
      isNumberPart c = false → isNumberPart d = false →
      j.toChars ++ [c] <+: j'.toChars ++ [d] → j = j' := by
    intro j j' c d h h' hc hd ⟨tail, htail⟩
    have hj : readValue depth (j.toChars ++ c :: tail) = .ok (j, c :: tail) :=
      readValue_toChars h (startsOutside_cons hc)
    have hj' : readValue depth (j'.toChars ++ [d]) = .ok (j', [d]) :=
      readValue_toChars h' (startsOutside_cons hd)
    rw [← htail, List.append_assoc, List.cons_append, List.nil_append, hj] at hj'
    cases hj'
    rfl
  exact apart_of_not_prefix (fun hp => hne (hread h h' hc hd hp))
    (fun hp => hne (hread h' h hd hc hp).symm)

end Json

theorem Calendar.Instant.quoted_lt (a : Instant) :
    quoted (a.toText .offset) < quoted (a.toText .letter) := by
  obtain ⟨stem, hstem⟩ : ∃ stem, ∀ zone, a.toChars zone = stem ++ zone.toChars :=
    ⟨_, fun _ => rfl⟩
  have hquoted : ∀ zone : Zone, quoted (a.toText zone) =
      ('"' :: stem.flatMap escape) ++ (zone.toChars.flatMap escape ++ ['"']) := by
    intro zone
    simp [quoted, toText, hstem]
  rw [hquoted, hquoted]
  refine PartsBelow.lt (.append_left ?_ _)
  exact .inl (by decide : '+' < 'Z')

namespace Value

/-- The value is a date, another value is not written like it, and the text by which this other
value is ordered lies between the two texts of the date. -/
def Obscures (v w : Value) : Prop :=
  v.kind = .date ∧
    (v.toJson .offset ≠ w.toJson .offset ∨ v.toJson .letter ≠ w.toJson .letter) ∧
    (v.toJson .offset).toText ≤ (w.toJson .letter).toText ∧
    (w.toJson .letter).toText ≤ (v.toJson .letter).toText

instance (v w : Value) : Decidable (v.Obscures w) :=
  inferInstanceAs (Decidable (_ ∧ _ ∧ _ ∧ _))

theorem toJson_of_ne_date {v : Value} (hv : v.kind ≠ .date) (zone : Calendar.Zone) :
    toJson zone v = toJson .letter v := by
  cases v with
  | date a => exact absurd rfl hv
  | number x => cases x <;> rfl
  | _ => rfl

theorem toText_le_letter (v : Value) : (v.toJson .offset).toText ≤ (v.toJson .letter).toText := by
  by_cases hv : v.kind = .date
  · cases v with
    | date a =>
      rw [String.le_iff_toList_le, Json.toText, Json.toText, String.toList_ofList,
        String.toList_ofList]
      exact a.quoted_lt.le
    | _ => cases hv
  · rw [toJson_of_ne_date hv]

theorem toJson_eq_of_not_obscures {v w : Value} (h : ¬ v.Obscures w) (hv : v.kind = .date)
    (hle : (v.toJson .offset).toText ≤ (w.toJson .letter).toText)
    (hle' : (w.toJson .letter).toText ≤ (v.toJson .letter).toText) (zone : Calendar.Zone) :
    toJson zone v = toJson zone w := by
  have hsame : v.toJson .offset = w.toJson .offset ∧ v.toJson .letter = w.toJson .letter := by
    by_contra hne
    exact h ⟨hv, not_and_or.mp hne, hle, hle'⟩
  cases zone with
  | offset => exact hsame.1
  | letter => exact hsame.2

/-- What ends with a quote parts from the text of any other value before either goes on. -/
theorem apart_toChars_quoted {v : Value} {zone : Calendar.Zone} {text : String}
    (hne : v.toJson zone ≠ .string text) : Apart (v.toJson zone).toChars (quoted text) := by
  cases v with
  | null => exact apart_cons_of_ne (by decide) _ _
  | bool b => cases b <;> exact apart_cons_of_ne (by decide) _ _
  | number x =>
    cases x with
    | finite x =>
      obtain ⟨c, rest, hchars, hc⟩ := exists_head_real x
      rw [toJson, Json.toChars, hchars]
      exact apart_cons_of_ne (ne_of_number hc (by decide) rfl) _ _
    | nan => exact apart_cons_of_ne (by decide) _ _
    | infinite negative => exact apart_cons_of_ne (by decide) _ _
  | string text' => exact apart_quoted fun heq => hne (congrArg Json.string heq)
  | date b => exact apart_quoted fun heq => hne (congrArg Json.string heq)

theorem partsBelow_of_lt {v w : Value} (hdate : v.kind = .date ∨ w.kind = .date)
    {zone : Calendar.Zone} (h : (v.toJson zone).toText < (w.toJson zone).toText) :
    PartsBelow (v.toJson zone).toChars (w.toJson zone).toChars := by
  have hne : v.toJson zone ≠ w.toJson zone := fun heq => h.ne (congrArg Json.toText heq)
  have hapart : Apart (v.toJson zone).toChars (w.toJson zone).toChars := by
    rcases hdate with hv | hw
    · cases v with
      | date a => exact (apart_toChars_quoted hne.symm).symm
      | _ => cases hv
    · cases w with
      | date a => exact apart_toChars_quoted hne
      | _ => cases hw
  rw [String.lt_iff_toList_lt, Json.toText, Json.toText, String.toList_ofList,
    String.toList_ofList] at h
  exact hapart.resolve_right fun hgt => lt_asymm h hgt.lt

/-- Under either zone the texts of two values part, whatever follows them, and do so alike. -/
def PartAlike (v w : Value) : Prop :=
  ∀ {c d : Char}, isNumberPart c = false → isNumberPart d = false → ∀ s t s' t' : List Char,
    OrderedAlike ((toJson .letter v).toChars ++ c :: s) ((toJson .letter w).toChars ++ d :: t)
      ((toJson .offset v).toChars ++ c :: s') ((toJson .offset w).toChars ++ d :: t')

theorem PartAlike.symm {v w : Value} (h : PartAlike v w) : PartAlike w v :=
  fun hd hc s t s' t' => (h hc hd t s t' s').symm

theorem partAlike_of_lt {v w : Value} (hdate : v.kind = .date ∨ w.kind = .date)
    (hlt : (v.toJson .letter).toText < (w.toJson .letter).toText) (hwv : ¬ w.Obscures v) :
    PartAlike v w := by
  have hlt' : (v.toJson .offset).toText < (w.toJson .offset).toText := by
    refine lt_of_le_of_lt v.toText_le_letter ?_
    by_cases hw : w.kind = .date
    · by_contra hle
      have hne : w.toJson .letter ≠ v.toJson .letter := fun heq => hlt.ne' (congrArg Json.toText heq)
      exact hwv ⟨hw, .inr hne, not_lt.mp hle, hlt.le⟩
    · rwa [toJson_of_ne_date hw]
  intro c d _ _ s t s' t'
  exact .below ((partsBelow_of_lt hdate hlt).append _ _) ((partsBelow_of_lt hdate hlt').append _ _)

theorem partAlike_plain {v w : Value} (hv : v.kind ≠ .date) (hw : w.kind ≠ .date)
    (hne : toJson .letter v ≠ toJson .letter w) : PartAlike v w := by
  intro c d hc hd s t s' t'
  have hapart := Readable.apart (v.readable_toJson .letter 0) (w.readable_toJson .letter 0) hne hc hd
  rw [toJson_of_ne_date hv .offset, toJson_of_ne_date hw .offset]
  simpa using hapart.orderedAlike s t s' t'

/-- Two values of which neither obscures the other are the same in JSON or part alike. -/
theorem toJson_eq_or_partAlike {v w : Value} (hvw : ¬ v.Obscures w) (hwv : ¬ w.Obscures v) :
    (∀ zone, toJson zone v = toJson zone w) ∨ PartAlike v w := by
  by_cases hdate : v.kind = .date ∨ w.kind = .date
  · rcases lt_trichotomy (v.toJson .letter).toText (w.toJson .letter).toText with hlt | heq | hgt
    · exact .inr (partAlike_of_lt hdate hlt hwv)
    · -- A date obscures every value of its own key but a date with the same two texts.
      rcases hdate with hv | hw
      · exact .inl (toJson_eq_of_not_obscures hvw hv (heq ▸ v.toText_le_letter) heq.ge)
      · refine .inl fun zone => (toJson_eq_of_not_obscures hwv hw ?_ heq.le zone).symm
        exact heq ▸ w.toText_le_letter
    · exact .inr (PartAlike.symm (partAlike_of_lt hdate.symm hgt hvw))
  · obtain ⟨hv, hw⟩ := not_or.mp hdate
    by_cases hjson : toJson .letter v = toJson .letter w
    · refine .inl fun zone => ?_
      rw [toJson_of_ne_date hv, toJson_of_ne_date hw, hjson]
    · exact .inr (partAlike_plain hv hw hjson)

end Value

/-- The first outputs have a date that obscures what the second ones have in its column. -/
def Outputs.Clash (a b : Outputs) : Prop :=
  ∃ e ∈ a.entries, ∃ f ∈ b.entries, e.1 = f.1 ∧ e.2.Obscures f.2

instance (a b : Outputs) : Decidable (a.Clash b) :=
  inferInstanceAs (Decidable (∃ e ∈ a.entries, ∃ f ∈ b.entries, _))

def membersIn (zone : Calendar.Zone) (entries : List (String × Value)) : List (String × Json) :=
  entries.map fun e => (e.1, e.2.toJson zone)

theorem exists_membersFrom (entries : List (String × Value)) :
    ∃ c, isNumberPart c = false ∧
      ∀ zone, ∃ rest, membersFrom false (membersIn zone entries) = c :: rest := by
  cases entries with
  | nil => exact ⟨'}', rfl, fun _ => ⟨_, rfl⟩⟩
  | cons e entries => exact ⟨',', rfl, fun _ => ⟨_, rfl⟩⟩

/-- After values that do not obscure each other, only what follows equal ones still counts. -/
theorem orderedAlike_value {v w : Value} (hvw : ¬ v.Obscures w) (hwv : ¬ w.Obscures v)
    {as bs : List (String × Value)}
    (h : OrderedAlike (membersFrom false (membersIn .letter as))
      (membersFrom false (membersIn .letter bs)) (membersFrom false (membersIn .offset as))
      (membersFrom false (membersIn .offset bs))) :
    OrderedAlike ((v.toJson .letter).toChars ++ membersFrom false (membersIn .letter as))
      ((w.toJson .letter).toChars ++ membersFrom false (membersIn .letter bs))
      ((v.toJson .offset).toChars ++ membersFrom false (membersIn .offset as))
      ((w.toJson .offset).toChars ++ membersFrom false (membersIn .offset bs)) := by
  rcases Value.toJson_eq_or_partAlike hvw hwv with heq | hpart
  · rw [heq, heq]
    exact h.append_left _ _
  · obtain ⟨c, hc, hfirst⟩ := exists_membersFrom as
    obtain ⟨d, hd, hfirst'⟩ := exists_membersFrom bs
    obtain ⟨s, hs⟩ := hfirst .letter
    obtain ⟨t, ht⟩ := hfirst' .letter
    obtain ⟨s', hs'⟩ := hfirst .offset
    obtain ⟨t', ht'⟩ := hfirst' .offset
    rw [hs, ht, hs', ht']
    exact hpart hc hd s t s' t'

theorem membersFrom_membersIn (zone : Calendar.Zone) (first : Bool) (k : String) (v : Value)
    (entries : List (String × Value)) :
    membersFrom first (membersIn zone ((k, v) :: entries)) =
      separator first ++ (quoted k ++
        ([':'] ++ ((v.toJson zone).toChars ++ membersFrom false (membersIn zone entries)))) := by
  rw [membersIn, List.map_cons, membersFrom_cons]
  rfl

/-- A list of members ends with a brace, where a longer one goes on with a comma or a quote. -/
theorem orderedAlike_membersFrom_nil (first : Bool) (e : String × Value)
    (entries : List (String × Value)) :
    OrderedAlike (membersFrom first (membersIn .letter []))
      (membersFrom first (membersIn .letter (e :: entries)))
      (membersFrom first (membersIn .offset []))
      (membersFrom first (membersIn .offset (e :: entries))) := by
  obtain ⟨k, v⟩ := e
  rw [membersFrom_membersIn, membersFrom_membersIn]
  cases first with
  | true => exact (apart_cons_of_ne (show '}' ≠ '"' by decide) [] []).orderedAlike [] _ [] _
  | false => exact (apart_cons_of_ne (show '}' ≠ ',' by decide) [] []).orderedAlike [] _ [] _

theorem orderedAlike_membersFrom {as bs : List (String × Value)}
    (h : ∀ e ∈ as, ∀ f ∈ bs, e.1 = f.1 → ¬ e.2.Obscures f.2 ∧ ¬ f.2.Obscures e.2)
    (first : Bool) :
    OrderedAlike (membersFrom first (membersIn .letter as)) (membersFrom first (membersIn .letter bs))
      (membersFrom first (membersIn .offset as)) (membersFrom first (membersIn .offset bs)) := by
  induction as generalizing bs first with
  | nil =>
    cases bs with
    | nil => exact .equal rfl rfl
    | cons f bs => exact orderedAlike_membersFrom_nil first f bs
  | cons e as ih =>
    cases bs with
    | nil => exact (orderedAlike_membersFrom_nil first e as).symm
    | cons f bs =>
      obtain ⟨k, v⟩ := e
      obtain ⟨l, w⟩ := f
      have hrest := ih (fun e he f hf =>
        h e (List.mem_cons_of_mem _ he) f (List.mem_cons_of_mem _ hf)) false
      simp only [membersFrom_membersIn]
      refine OrderedAlike.append_left ?_ _ _
      by_cases hkl : k = l
      · subst hkl
        obtain ⟨hvw, hwv⟩ := h _ List.mem_cons_self _ List.mem_cons_self rfl
        exact ((orderedAlike_value hvw hwv hrest).append_left _ _).append_left _ _
      · exact (apart_quoted hkl).orderedAlike _ _ _ _

/-- Without a clash, outputs are rendered in the order of their keys. -/
theorem toText_le_of_sortKey_le {a b : Outputs} (hab : ¬ a.Clash b) (hba : ¬ b.Clash a)
    (h : Table.sortKey a ≤ Table.sortKey b) :
    (a.toJson .offset).toText ≤ (b.toJson .offset).toText := by
  have hclash : ∀ e ∈ a.entries, ∀ f ∈ b.entries, e.1 = f.1 →
      ¬ e.2.Obscures f.2 ∧ ¬ f.2.Obscures e.2 := by
    intro e he f hf hname
    exact ⟨fun ho => hab ⟨e, he, f, hf, hname, ho⟩, fun ho => hba ⟨f, hf, e, he, hname.symm, ho⟩⟩
  have htext : ∀ (zone : Calendar.Zone) (o : Outputs),
      (o.toJson zone).toText.toList = '{' :: membersFrom true (membersIn zone o.entries) := by
    intro zone o
    rw [Json.toText, String.toList_ofList, ← memberChars_eq_membersFrom]
    rfl
  rw [Table.sortKey, Table.sortKey, String.le_iff_toList_le, htext, htext] at h
  rw [String.le_iff_toList_le, htext, htext]
  exact ((orderedAlike_membersFrom hclash true).append_left ['{'] ['{']).le h

namespace Table

variable {table : Table} {record : FactRecord} {options : Options}

theorem child?_results (hits : List Match) (list : List Outputs) :
    (table.outcomeOf record options hits (.multiple list)).toJson.child? "results".toList =
      some (.array (list.map (Outputs.toJson .offset))) := by
  rw [Outcome.child?_toJson, lookup_additions, if_neg (by simp), if_neg (by simp)]
  rfl

/-- The results of a table that orders its outputs stand in the order of their rendered texts, where
no two of them clash. -/
theorem inByteOrder_results (hpolicy : table.policy = .outputOrder) {outcome : Outcome}
    (h : table.evaluate record options = .ok outcome)
    (hclash : ∀ a ∈ outcome.decision.all, ∀ b ∈ outcome.decision.all, ¬ a.Clash b) :
    ∃ items, outcome.toJson.child? "results".toList = some (.array items) ∧
      InByteOrder (items.map Json.toText) := by
  obtain ⟨decision, hresolve, rfl⟩ := exists_of_evaluate_eq_ok h
  rw [resolve_outputOrder hpolicy] at hresolve
  cases hresolve
  refine ⟨_, child?_results _ _, ?_⟩
  rw [inByteOrder_iff, List.map_map, List.pairwise_map]
  have hsorted := List.pairwise_map.mp (sortKey_sorted ((table.matched record).map Match.outputs))
  exact hsorted.imp_of_mem fun ha hb hle =>
    toText_le_of_sortKey_le (hclash _ ha _ hb) (hclash _ hb _ ha) hle

end Table

/-- Dates of three days, one of them with a part of a second, beside a note for one of them. -/
def daysDraft : Draft where
  policy := .outputOrder
  aggregation := .none
  inputs := []
  outputs := [⟨"at", .date, none, none⟩]
  rules := [⟨none, [], [("at", .string "2024-01-03"), ("note", .string "2024-01-03")], none, none⟩,
    ⟨none, [], [("at", .string "2024-01-02T00:00:00.5Z")], none, none⟩,
    ⟨none, [], [("at", .string "2024-01-01T12:00:00+02:00")], none, none⟩]

theorem Table.inByteOrder_results_days :
    ∃ table outcome, daysDraft.build = .ok table ∧ table.policy = .outputOrder ∧
      table.evaluate .empty .default = .ok outcome ∧
      (∀ a ∈ outcome.decision.all, ∀ b ∈ outcome.decision.all, ¬ a.Clash b) ∧
      ∃ items, outcome.toJson.child? "results".toList = some (.array items) ∧
        InByteOrder (items.map Json.toText) := by
  obtain ⟨table, outcome, hbuild, hpolicy, houtcome, hclash⟩ :
      ∃ table outcome, daysDraft.build = .ok table ∧ table.policy = .outputOrder ∧
        table.evaluate .empty .default = .ok outcome ∧
        ∀ a ∈ outcome.decision.all, ∀ b ∈ outcome.decision.all, ¬ a.Clash b := by
    refine ⟨_, _, rfl, rfl, rfl, ?_⟩
    simp only [Table.outcomeOf, Decision.all, List.mem_mergeSort]
    decide +kernel
  exact ⟨table, outcome, hbuild, hpolicy, houtcome, hclash,
    Table.inByteOrder_results hpolicy houtcome hclash⟩

/-- In the order of the keys, half a second past midnight comes before midnight. -/
def midnightDraft : Draft where
  policy := .outputOrder
  aggregation := .none
  inputs := []
  outputs := [⟨"at", .date, none, none⟩]
  rules := [⟨none, [], [("at", .string "2024-01-01T00:00:00.5Z")], none, none⟩,
    ⟨none, [], [("at", .string "2024-01-01T00:00:00Z")], none, none⟩]

theorem Table.not_inByteOrder_midnight :
    ∃ table outcome items, midnightDraft.build = .ok table ∧
      table.policy = .outputOrder ∧
      table.evaluate .empty .default = .ok outcome ∧
      outcome.toJson.child? "results".toList = some (.array items) ∧
      ¬ InByteOrder (items.map Json.toText) := by
  refine ⟨_, _, _, rfl, rfl, rfl, Table.child?_results _ _, ?_⟩
  -- The keys of the two rules are in order already.
  rw [List.mergeSort_of_pairwise (by decide +kernel), inByteOrder_iff]
  decide +kernel

end DecisionTables
