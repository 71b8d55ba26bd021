import DecisionTables.Proofs.Table.Policies
import Mathlib

/-!
# The greatest priority

Which rule decides where priorities do. Main statement: it is the earliest of the matching rules
with the greatest priority, and the earliest matching rule if no priority is a number.
-/
namespace DecisionTables
namespace Table

variable {table : Table} {record : FactRecord}

/-- A matching rule whose priority is a number, and no less than that of any other such rule. -/
structure HasGreatestPriority (table : Table) (record : FactRecord) (rule : Rule) : Prop where
  matched : table.isMatched record rule = true
  isNumber : rule.effectivePriority.isNaN = false
  atMost : ∀ other ∈ table.rules, table.isMatched record other = true →
    other.effectivePriority.isNaN = false →
      other.effectivePriority.atMost rule.effectivePriority = true

/-- The matching rule that the priorities choose, after the rules that are declared before it. -/
structure ChosenByPriority (table : Table) (record : FactRecord) (earlier : List Rule)
    (rule : Rule) : Prop where
  matched : table.isMatched record rule = true
  greatest : (∃ other ∈ table.rules, table.isMatched record other = true ∧
      other.effectivePriority.isNaN = false) →
    table.HasGreatestPriority record rule ∧
      ∀ other ∈ earlier, ¬ table.HasGreatestPriority record other
  first : (∀ other ∈ table.rules, table.isMatched record other = true →
      other.effectivePriority.isNaN = true) →
    ∀ other ∈ earlier, table.isMatched record other = false

/-- A match is that of a rule, and those before it are all of the matching rules before this one. -/
theorem exists_of_matched_eq {before after : List Match} {m : Match}
    (h : table.matched record = before ++ m :: after) :
    ∃ earlier later, table.rules = earlier ++ m.rule :: later ∧
      table.isMatched record m.rule = true ∧ m.outputs = table.outputsOf m.rule ∧
      ∀ rule ∈ earlier, table.isMatched record rule = true →
        ⟨rule, table.outputsOf rule⟩ ∈ before := by
  obtain ⟨_, _, hfilter, rfl, htail⟩ := List.map_eq_append_iff.mp h
  obtain ⟨rule, _, rfl, rfl, -⟩ := List.map_eq_cons_iff.mp htail
  obtain ⟨earlier, _, hrules, rfl, htail⟩ := List.filter_eq_append_iff.mp hfilter
  obtain ⟨unmatched, later, rfl, hnone, hrule, -⟩ := List.filter_eq_cons_iff.mp htail
  refine ⟨earlier ++ unmatched, later, by simpa using hrules, hrule, rfl, fun other hother hm => ?_⟩
  rcases List.mem_append.mp hother with hother | hother
  · exact List.mem_map_of_mem (List.mem_filter.mpr ⟨hother, hm⟩)
  · exact absurd hm (hnone other hother)

/-- Where a matching rule has a number for its priority, the greatest priority is one that leads
those of all matching rules. -/
theorem hasGreatestPriority_iff {rule : Rule}
    (hnumber : ∃ other ∈ table.rules, table.isMatched record other = true ∧
      other.effectivePriority.isNaN = false) :
    table.HasGreatestPriority record rule ↔ table.isMatched record rule = true ∧
      ∀ other ∈ table.rules, table.isMatched record other = true →
        Number.Leads (· ≥ ·) rule.effectivePriority other.effectivePriority := by
  constructor
  · rintro ⟨hrule, hisNumber, hatMost⟩
    refine ⟨hrule, fun other hother hmatched => ?_⟩
    cases hnan : other.effectivePriority.isNaN with
    | true => exact .inl hnan
    | false =>
      have hle := Number.atMost_iff.mp (hatMost other hother hmatched hnan)
      exact .inr ⟨hisNumber, hle.2.2⟩
  · rintro ⟨hrule, hleads⟩
    obtain ⟨witness, hwitness, hmatched, hnan⟩ := hnumber
    have hisNumber := ((hleads witness hwitness hmatched).of_number hnan).1
    refine ⟨hrule, hisNumber, fun other hother hmatched hnan => ?_⟩
    have hle := ((hleads other hother hmatched).of_number hnan).2
    exact Number.atMost_iff.mpr ⟨hnan, hisNumber, hle⟩

theorem mem_matched {rule : Rule} (hrule : rule ∈ table.rules)
    (hmatched : table.isMatched record rule = true) :
    ⟨rule, table.outputsOf rule⟩ ∈ table.matched record :=
  List.mem_map_of_mem (List.mem_filter.mpr ⟨hrule, hmatched⟩)

theorem answer_eq_foremost {m : Match} (hpolicy : table.policy = .priority)
    (h : foremost? (table.matched record) = some m) (options : Options) :
    table.answer record options = .ok (.single m.outputs) := by
  have hne : table.matched record ≠ [] := by
    intro hnil
    rw [hnil] at h
    cases h
  rw [answer_of_ne_nil hne]
  simp only [resolve, hpolicy, h]
  rfl

/-- Among matching rules the earliest one of the greatest priority decides, whatever the options
ask for. -/
theorem exists_chosenByPriority (hpolicy : table.policy = .priority)
    (hmatch : ∃ rule ∈ table.rules, table.isMatched record rule = true) (options : Options) :
    ∃ earlier rule later, table.rules = earlier ++ rule :: later ∧
      table.ChosenByPriority record earlier rule ∧
      table.answer record options = .ok (.single (table.outputsOf rule)) := by
  obtain ⟨m, hm⟩ : ∃ m, foremost? (table.matched record) = some m := by
    obtain ⟨rule, hrule, hmatched⟩ := hmatch
    exact exists_foremost?_of_mem (mem_matched hrule hmatched)
  have hforemost := firstForemost_of_foremost? hm
  obtain ⟨before, after, hhits, hbefore, -⟩ := id hforemost
  obtain ⟨earlier, later, hrules, hmatched, houtputs, hearlier⟩ := exists_of_matched_eq hhits
  have hrule : m.rule ∈ table.rules := by simp [hrules]
  refine ⟨earlier, m.rule, later, hrules, ⟨hmatched, fun hnumber => ⟨?_, ?_⟩, fun hnan => ?_⟩, ?_⟩
  · refine (hasGreatestPriority_iff hnumber).mpr ⟨hmatched, fun other hother hm => ?_⟩
    exact hforemost.leads (mem_matched hother hm)
  · intro other hother hgreatest
    have hleads := ((hasGreatestPriority_iff hnumber).mp hgreatest).2 m.rule hrule hmatched
    exact hbefore _ (hearlier other hother hgreatest.matched) hleads
  · intro other hother
    by_contra hother'
    exact hbefore _ (hearlier other hother (by simpa using hother')) (.inl (hnan _ hrule hmatched))
  · rw [answer_eq_foremost hpolicy hm, houtputs]

end Table

/-- Without a vip the second and the third rule have the greatest priority, nought of either
sign. -/
def vipDraft : Draft where
  policy := .priority
  aggregation := .none
  inputs := [⟨"vip", .boolean, none, none⟩]
  outputs := [⟨"tier", .string, none, none⟩]
  rules := [⟨none, [], [("tier", .string "NONE")], some .nan, none⟩,
    ⟨none, [], [("tier", .string "PLAIN")], none, none⟩,
    ⟨none, [], [("tier", .string "TIED")], some (.finite (.zero true)), none⟩,
    ⟨none, [⟨"vip", .eq, .scalar (.bool true)⟩], [("tier", .string "VIP")],
      some (.infinite false), none⟩]

theorem Table.exists_chosenByPriority_vip :
    ∃ table, vipDraft.build = .ok table ∧ table.policy = .priority ∧
      (∃ rule ∈ table.rules, table.isMatched .empty rule = true) ∧
      ∃ earlier rule later, table.rules = earlier ++ rule :: later ∧
        table.ChosenByPriority .empty earlier rule ∧
        table.answer .empty ⟨true, false, false⟩ = .ok (.single (table.outputsOf rule)) :=
  ⟨_, rfl, rfl, ⟨_, List.mem_cons_self, rfl⟩,
    exists_chosenByPriority rfl ⟨_, List.mem_cons_self, rfl⟩ ⟨true, false, false⟩⟩

example : vipDraft.build.map (fun table => table.answer .empty .default) =
    .ok (.ok (.single (.ofList [("tier", .string "PLAIN")]))) := by
  rfl

end DecisionTables
