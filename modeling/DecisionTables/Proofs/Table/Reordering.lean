import DecisionTables.Proofs.Table.Policies
import DecisionTables.Proofs.Table.Resolution
import Mathlib

/-!
# The order of the rules

What is left of an answer when the rules of a table are declared in another order. A rule without
an id is named for its place, so the matches of the two tables are the same ones only without their
ids; but no policy looks at an id. Each policy then reduces a permutation of the same matches.
-/
namespace DecisionTables

theorem Value.equal_symm {v w : Value} (h : v.equal w = true) : w.equal v = true := by
  cases v <;> cases w <;> simp_all [Value.equal, Number.equal_symm]

theorem Value.equal_trans {u v w : Value} (huv : u.equal v = true) (hvw : v.equal w = true) :
    u.equal w = true := by
  cases u <;> cases v <;> simp only [Value.equal, beq_iff_eq, Bool.false_eq_true] at huv
  all_goals cases w <;> simp only [Value.equal, beq_iff_eq, Bool.false_eq_true] at hvw ⊢
  case number => exact Number.equal_trans huv hvw
  all_goals exact huv.trans hvw

namespace Table

theorem agree_symm {a b : List (String × Value)} (h : agree a b = true) : agree b a = true := by
  induction a generalizing b with
  | nil => cases b <;> simp_all [agree]
  | cons e a ih =>
    cases b with
    | nil => cases h
    | cons e' b =>
      simp only [agree, Bool.and_eq_true, beq_iff_eq] at h ⊢
      exact ⟨⟨h.1.1.symm, Value.equal_symm h.1.2⟩, ih h.2⟩

theorem agree_trans {a b c : List (String × Value)} (hab : agree a b = true)
    (hbc : agree b c = true) : agree a c = true := by
  induction a generalizing b c with
  | nil => cases b <;> cases c <;> simp_all [agree]
  | cons e a ih =>
    cases b with
    | nil => cases hab
    | cons e' b =>
      cases c with
      | nil => cases hbc
      | cons e'' c =>
        simp only [agree, Bool.and_eq_true, beq_iff_eq] at hab hbc ⊢
        exact ⟨⟨hab.1.1.trans hbc.1.1, Value.equal_trans hab.1.2 hbc.1.2⟩, ih hab.2 hbc.2⟩

/-- Agreeing with the first match is agreeing with each other, and with oneself. -/
theorem allAgree_iff {hits : List Match} :
    allAgree hits = true ↔
      ∀ m ∈ hits, ∀ n ∈ hits, agree m.outputs.entries n.outputs.entries = true := by
  cases hits with
  | nil => simp [allAgree]
  | cons first rest =>
    rw [allAgree, List.all_eq_true]
    constructor
    · intro h m hm n hn
      exact agree_trans (h m hm) (agree_symm (h n hn))
    · intro h m hm
      exact h m hm first List.mem_cons_self

end Table

def Rule.anonymous (rule : Rule) : Rule := { rule with id := "" }

def Match.anonymous (m : Match) : Match := { m with rule := m.rule.anonymous }

theorem numberRules_anonymous (position : ℕ) (drafts : List RuleDraft) :
    (numberRules position drafts).map Rule.anonymous =
      drafts.map fun draft => (draft.toRule 0).anonymous := by
  induction drafts generalizing position with
  | nil => rfl
  | cons draft rest ih =>
    rw [numberRules, List.map_cons, List.map_cons, ih]
    rfl

namespace Table

theorem matched_anonymous (table : Table) (record : FactRecord) :
    (table.matched record).map Match.anonymous =
      ((table.rules.map Rule.anonymous).filter (table.isMatched record)).map
        fun rule => ⟨rule, table.outputsOf rule⟩ := by
  rw [matched, List.filter_map, List.map_map, List.map_map]
  rfl

theorem unseen_anonymous : Unseen Match.anonymous := ⟨fun _ => rfl, fun _ => rfl⟩

/-- Two answers are the same error, or two decisions that are related. -/
inductive Alike (related : Decision → Decision → Prop) :
    Except DecisionError Decision → Except DecisionError Decision → Prop
  | error (e : DecisionError) : Alike related (.error e) (.error e)
  | ok {decision decision' : Decision} (h : related decision decision') :
      Alike related (.ok decision) (.ok decision')

/-- Equal as values; without a match both are the defaults. -/
def EqualOutputs (decision decision' : Decision) : Prop :=
  ∃ outputs outputs', decision = .single outputs ∧ decision' = .single outputs' ∧
    (outputs = outputs' ∨ agree outputs.entries outputs'.entries = true)

def SameNumber (v w : Value) : Prop := ∃ x y, v = .number x ∧ w = .number y ∧ Number.Same x y

def SameNumbers (decision decision' : Decision) : Prop :=
  ∃ outputs outputs', decision = .single outputs ∧ decision' = .single outputs' ∧
    ∀ column, Option.Rel SameNumber (outputs.get? column) (outputs'.get? column)

def SameKeys (decision decision' : Decision) : Prop :=
  ∃ list list', decision = .multiple list ∧ decision' = .multiple list' ∧
    list.map sortKey = list'.map sortKey

def SameList (decision decision' : Decision) : Prop :=
  ∃ list list', decision = .multiple list ∧ decision' = .multiple list' ∧ list.Perm list'

/-- The greatest priority of the matches, not-a-number apart, is held by only one of them. -/
def SoleForemost (hits : List Match) : Prop :=
  ∃ p : Number, p.isNaN = false ∧
    hits.countP (fun m => m.rule.effectivePriority.equal p) = 1 ∧
    ∀ m ∈ hits, p.less m.rule.effectivePriority = false

/-- What two answers have in common under each policy, whatever the order of the matches. -/
structure OrderFree (table : Table) (hits : List Match)
    (answer answer' : Except DecisionError Decision) : Prop where
  unique : table.policy = .unique → answer' = answer
  any : table.policy = .any → Alike EqualOutputs answer answer'
  outputOrder : table.policy = .outputOrder → Alike SameKeys answer answer'
  count : table.policy = .collect → table.aggregation = .count → answer' = answer
  extreme : table.policy = .collect → table.aggregation = .min ∨ table.aggregation = .max →
    Alike SameNumbers answer answer'
  collect : table.policy = .collect → table.aggregation = .none → Alike SameList answer answer'
  priority : table.policy = .priority → SoleForemost hits → answer' = answer

variable {hits hits' : List Match}

theorem resolve_unique_perm {table : Table} (hpolicy : table.policy = .unique)
    (hperm : hits'.Perm hits) : table.resolve hits' = table.resolve hits := by
  simp only [resolve, hpolicy, hperm.length_eq]
  split_ifs with hlen
  · rfl
  · have hsame : hits' = hits := by
      rcases hits with _ | ⟨m, _ | ⟨_, _⟩⟩
      · exact hperm.eq_nil
      · exact List.perm_singleton.mp hperm
      · simp at hlen
    rw [hsame]

theorem allAgree_perm (hperm : hits'.Perm hits) : allAgree hits' = allAgree hits := by
  rw [Bool.eq_iff_iff, allAgree_iff, allAgree_iff]
  simp only [hperm.mem_iff]

theorem resolve_any_perm {table : Table} (hpolicy : table.policy = .any)
    (hperm : hits'.Perm hits) :
    Alike EqualOutputs (table.resolve hits) (table.resolve hits') := by
  simp only [resolve, hpolicy, hperm.length_eq, allAgree_perm hperm]
  split_ifs with hagree
  · refine .ok ⟨_, _, rfl, rfl, ?_⟩
    cases hits with
    | nil =>
      rw [hperm.eq_nil]
      exact .inl rfl
    | cons m rest =>
      cases hits' with
      | nil => cases hperm.symm.eq_nil
      | cons m' rest' =>
        have hm' : m' ∈ m :: rest := hperm.mem_iff.mp List.mem_cons_self
        exact .inr (allAgree_iff.mp hagree m List.mem_cons_self m' hm')
  · exact .error _

def before (a b : Outputs) : Bool := compare (sortKey a) (sortKey b) != .gt

theorem before_iff {a b : Outputs} : before a b = true ↔ sortKey a ≤ sortKey b := by
  rw [before, bne_iff_ne]
  exact compare_le_iff_le

theorem before_trans (a b c : Outputs) (hab : before a b = true) (hbc : before b c = true) :
    before a c = true :=
  before_iff.mpr (le_trans (before_iff.mp hab) (before_iff.mp hbc))

theorem before_total (a b : Outputs) : (before a b || before b a) = true := by
  rw [Bool.or_eq_true, before_iff, before_iff]
  exact le_total _ _

theorem resolve_outputOrder {table : Table} (hpolicy : table.policy = .outputOrder)
    (hits : List Match) :
    table.resolve hits = .ok (.multiple ((hits.map Match.outputs).mergeSort before)) := by
  simp only [resolve, hpolicy]
  rfl

theorem sortKey_sorted (list : List Outputs) :
    ((list.mergeSort before).map sortKey).Pairwise (· ≤ ·) :=
  List.pairwise_map.mpr
    ((List.pairwise_mergeSort before_trans before_total list).imp before_iff.mp)

theorem resolve_outputOrder_perm {table : Table} (hpolicy : table.policy = .outputOrder)
    (hperm : hits'.Perm hits) : Alike SameKeys (table.resolve hits) (table.resolve hits') := by
  rw [resolve_outputOrder hpolicy, resolve_outputOrder hpolicy]
  refine .ok ⟨_, _, rfl, rfl, ?_⟩
  have hsorted := (List.mergeSort_perm (hits.map Match.outputs) before).trans
    ((hperm.symm.map Match.outputs).trans (List.mergeSort_perm (hits'.map Match.outputs) before).symm)
  exact (hsorted.map sortKey).eq_of_pairwise (fun _ _ _ _ hst hts => le_antisymm hst hts)
    (sortKey_sorted _) (sortKey_sorted _)

def reduced? (table : Table) (hits : List Match) (c : Column) : Option Value :=
  (combiner? table.aggregation).bind fun f =>
    if c.type = .number then (reduce f (numbersAt hits c.name)).map .number else none

theorem reduced?_nil (table : Table) (c : Column) : table.reduced? [] c = none := by
  unfold reduced?
  cases combiner? table.aggregation with
  | none => rfl
  | some f => split_ifs <;> rfl

theorem aggregate_eq_ofList {table : Table} (hcount : table.aggregation ≠ .count)
    (hits : List Match) :
    table.aggregate hits =
      .ofList (table.outputs.filterMap fun c =>
        (table.reduced? hits c).map fun v => (c.name, v)) := by
  cases hits with
  | nil => simp [aggregate, reduced?_nil, Fields.ofList]
  | cons m rest =>
    rw [aggregate, if_neg (by simp), if_neg hcount]
    refine congrArg Fields.ofList (List.filterMap_congr fun c _ => ?_)
    unfold reduced?
    cases combiner? table.aggregation with
    | none => rfl
    | some f =>
      simp only [Option.bind_eq_bind, Option.bind_some]
      split_ifs
      · rw [Option.map_map]
        rfl
      · rfl

theorem get?_aggregate {table : Table} (hcount : table.aggregation ≠ .count)
    (hits : List Match) (column : String) :
    (table.aggregate hits).get? column =
      (columnNamed? table.outputs column).bind (table.reduced? hits) := by
  rw [aggregate_eq_ofList hcount, get?_ofList_filterMap table.outputs_named]

theorem reduce_perm {f : Number → Number → Number} {leads : Number → Number → Prop}
    (h : Chooses f leads) (hsame : ∀ {x y}, leads x y → leads y x → Number.Same x y)
    {xs ys : List Number} (hperm : ys.Perm xs) :
    Option.Rel Number.Same (reduce f xs) (reduce f ys) := by
  cases xs with
  | nil =>
    rw [hperm.eq_nil]
    exact .none
  | cons x xs =>
    cases ys with
    | nil => cases hperm.symm.eq_nil
    | cons y ys =>
      obtain ⟨hmem, hleads⟩ := h.foldl x xs
      obtain ⟨hmem', hleads'⟩ := h.foldl y ys
      exact .some (hsame (hleads _ (hperm.mem_iff.mp hmem')) (hleads' _ (hperm.mem_iff.mpr hmem)))

theorem sameNumber_map {a b : Option Number} (h : Option.Rel Number.Same a b) :
    Option.Rel SameNumber (a.map .number) (b.map .number) := by
  cases h with
  | none => exact .none
  | some hxy => exact .some ⟨_, _, rfl, rfl, hxy⟩

theorem reduced?_perm {table : Table}
    (hextreme : table.aggregation = .min ∨ table.aggregation = .max) (hperm : hits'.Perm hits)
    (c : Column) : Option.Rel SameNumber (table.reduced? hits c) (table.reduced? hits' c) := by
  have hnumbers : (numbersAt hits' c.name).Perm (numbersAt hits c.name) := hperm.filterMap _
  have hmin := reduce_perm Number.chooses_lesser (Number.same_of_leads le_antisymm) hnumbers
  have hmax := reduce_perm Number.chooses_greater (Number.same_of_leads ge_antisymm) hnumbers
  unfold reduced?
  rcases hextreme with h | h <;> simp only [h, combiner?, Option.bind_some] <;> split_ifs
  · exact sameNumber_map hmin
  · exact .none
  · exact sameNumber_map hmax
  · exact .none

theorem resolve_extreme_perm {table : Table} (hpolicy : table.policy = .collect)
    (hextreme : table.aggregation = .min ∨ table.aggregation = .max) (hperm : hits'.Perm hits) :
    Alike SameNumbers (table.resolve hits) (table.resolve hits') := by
  have hcount : table.aggregation ≠ .count := by rcases hextreme with h | h <;> simp [h]
  have hnone : table.aggregation ≠ .none := by rcases hextreme with h | h <;> simp [h]
  simp only [resolve, hpolicy, if_neg hnone]
  refine .ok ⟨_, _, rfl, rfl, fun column => ?_⟩
  rw [get?_aggregate hcount, get?_aggregate hcount]
  cases columnNamed? table.outputs column with
  | none => exact .none
  | some c => exact reduced?_perm hextreme hperm c

theorem isEmpty_eq_of_length (h : hits'.length = hits.length) : hits'.isEmpty = hits.isEmpty := by
  rw [Bool.eq_iff_iff, List.isEmpty_iff_length_eq_zero, List.isEmpty_iff_length_eq_zero, h]

theorem resolve_count_perm {table : Table} (hpolicy : table.policy = .collect)
    (hcount : table.aggregation = .count) (hperm : hits'.Perm hits) :
    table.resolve hits' = table.resolve hits := by
  have hempty := isEmpty_eq_of_length hperm.length_eq
  simp only [resolve, hpolicy, hcount, aggregate, hempty, hperm.length_eq]
  rfl

/-- The foremost match has the greatest priority, if this is a number. -/
theorem equal_of_foremost? {p : Number} {m : Match} (hp : p.isNaN = false)
    (hheld : ∃ n ∈ hits, n.rule.effectivePriority.equal p = true)
    (hgreatest : ∀ n ∈ hits, p.less n.rule.effectivePriority = false)
    (h : foremost? hits = some m) : m ∈ hits ∧ m.rule.effectivePriority.equal p = true := by
  have hfirst := firstForemost_of_foremost? h
  obtain ⟨n, hn, hequal⟩ := hheld
  obtain ⟨hnan, _, hplace⟩ := Number.equal_iff.mp hequal
  obtain ⟨hmnan, hle⟩ := (hfirst.leads hn).of_number hnan
  have hge := Number.place_le_of_not_less hp hmnan (by simp [hgreatest m hfirst.mem])
  exact ⟨hfirst.mem, Number.equal_iff.mpr ⟨hmnan, hp, le_antisymm hge (hplace ▸ hle)⟩⟩

theorem foremost?_perm (hsole : SoleForemost hits) (hperm : hits'.Perm hits) :
    foremost? hits' = foremost? hits := by
  obtain ⟨p, hp, hone, hgreatest⟩ := hsole
  obtain ⟨n, hn, hequal⟩ := List.countP_pos_iff.mp (hone ▸ Nat.one_pos)
  obtain ⟨m, hm⟩ := exists_foremost?_of_mem hn
  obtain ⟨m', hm'⟩ := exists_foremost?_of_mem (hperm.mem_iff.mpr hn)
  obtain ⟨hmem, hmp⟩ := equal_of_foremost? hp ⟨n, hn, hequal⟩ hgreatest hm
  obtain ⟨hmem', hmp'⟩ := equal_of_foremost? hp ⟨n, hperm.mem_iff.mpr hn, hequal⟩
    (fun k hk => hgreatest k (hperm.mem_iff.mp hk)) hm'
  rw [List.countP_eq_length_filter, List.length_eq_one_iff] at hone
  obtain ⟨sole, hsole⟩ := hone
  have hsingle : ∀ k ∈ hits, k.rule.effectivePriority.equal p = true → k = sole := by
    intro k hk hkp
    exact List.mem_singleton.mp (hsole ▸ List.mem_filter.mpr ⟨hk, hkp⟩)
  rw [hm, hm', hsingle m hmem hmp, hsingle m' (hperm.mem_iff.mp hmem') hmp']

/-- No policy but those that ask for an order depends on that of the matches. -/
theorem resolve_perm (table : Table) (hperm : hits'.Perm hits) :
    OrderFree table hits (table.resolve hits) (table.resolve hits') where
  unique hpolicy := resolve_unique_perm hpolicy hperm
  any hpolicy := resolve_any_perm hpolicy hperm
  outputOrder hpolicy := resolve_outputOrder_perm hpolicy hperm
  count hpolicy hcount := resolve_count_perm hpolicy hcount hperm
  extreme hpolicy hextreme := resolve_extreme_perm hpolicy hextreme hperm
  collect hpolicy hnone := by
    simp only [resolve, hpolicy, hnone]
    exact .ok ⟨_, _, rfl, rfl, hperm.symm.map _⟩
  priority hpolicy hsole := by
    simp only [resolve, hpolicy, foremost?_perm hsole hperm]

theorem soleForemost_anonymous (hits : List Match) :
    SoleForemost (hits.map Match.anonymous) ↔ SoleForemost hits := by
  simp only [SoleForemost, List.countP_map, List.forall_mem_map]
  rfl

/-- It is enough that the matches are reordered but for their ids. -/
theorem resolve_perm_anonymous (table : Table)
    (hperm : (hits'.map Match.anonymous).Perm (hits.map Match.anonymous)) :
    OrderFree table hits (table.resolve hits) (table.resolve hits') := by
  have h := table.resolve_perm hperm
  rw [unseen_anonymous.resolve_map, unseen_anonymous.resolve_map] at h
  refine { h with priority := ?_ }
  intro hpolicy hsole
  exact h.priority hpolicy ((soleForemost_anonymous hits).mpr hsole)

theorem Alike.unlessMissing {related : Decision → Decision → Prop}
    {answer answer' : Except DecisionError Decision} (h : Alike related answer answer')
    (missing : Bool) :
    Alike related (unlessMissing missing answer) (Table.unlessMissing missing answer') := by
  cases h with
  | error e => exact .error e
  | ok h =>
    cases missing with
    | true => exact .error .noneMatched
    | false => exact .ok h

theorem OrderFree.unlessMissing {table : Table} {answer answer' : Except DecisionError Decision}
    (h : OrderFree table hits answer answer') (missing : Bool) :
    OrderFree table hits (unlessMissing missing answer) (unlessMissing missing answer') where
  unique hpolicy := by rw [h.unique hpolicy]
  any hpolicy := (h.any hpolicy).unlessMissing missing
  outputOrder hpolicy := (h.outputOrder hpolicy).unlessMissing missing
  count hpolicy hcount := by rw [h.count hpolicy hcount]
  extreme hpolicy hextreme := (h.extreme hpolicy hextreme).unlessMissing missing
  collect hpolicy hnone := (h.collect hpolicy hnone).unlessMissing missing
  priority hpolicy hsole := by rw [h.priority hpolicy hsole]

end Table

/-- Whichever way the rules of a table are ordered, its answers have in common what the policy
says. -/
theorem Draft.exists_orderFree {draft : Draft} {table : Table} (h : draft.build = .ok table)
    {rules : List RuleDraft} (hperm : rules.Perm draft.rules) (record : FactRecord)
    (options : Options) :
    ∃ table', { draft with rules := rules }.build = .ok table' ∧
      table.OrderFree (table.matched record) (table.answer record options)
        (table'.answer record options) := by
  obtain ⟨hInputs, hOutputs, rfl⟩ := exists_of_build_eq_ok h
  refine ⟨_, build_eq_ok { draft with rules := rules } hInputs hOutputs, ?_⟩
  set table := draft.table hInputs hOutputs
  set table' := Draft.table { draft with rules := rules } hInputs hOutputs
  have hrules : (table'.rules.map Rule.anonymous).Perm (table.rules.map Rule.anonymous) := by
    change ((numberRules 1 rules).map _).Perm ((numberRules 1 draft.rules).map _)
    rw [numberRules_anonymous, numberRules_anonymous]
    exact hperm.map _
  have hmatched : ((table'.matched record).map Match.anonymous).Perm
      ((table.matched record).map Match.anonymous) := by
    rw [Table.matched_anonymous, Table.matched_anonymous]
    exact (hrules.filter _).map _
  have hempty : (table'.matched record).isEmpty = (table.matched record).isEmpty := by
    refine Table.isEmpty_eq_of_length ?_
    simpa only [List.length_map] using hmatched.length_eq
  rw [Table.answer_eq_unlessMissing, Table.answer_eq_unlessMissing, hempty]
  exact (table.resolve_perm_anonymous hmatched).unlessMissing _

/-- Two rules without ids, of which the one with the greater priority comes last. -/
def rankedDraft : Draft where
  policy := .priority
  aggregation := .none
  inputs := []
  outputs := [⟨"rank", .number, none, none⟩]
  rules := [⟨none, [], [("rank", .string "1")], none, none⟩,
    ⟨none, [], [("rank", .string "2")], some .nan, none⟩,
    ⟨none, [], [("rank", .string "3")], some (.ofNat 5), none⟩]

theorem Draft.exists_orderFree_ranked :
    ∃ table, rankedDraft.build = .ok table ∧
      rankedDraft.rules.reverse.Perm rankedDraft.rules ∧
      ∃ table', { rankedDraft with rules := rankedDraft.rules.reverse }.build = .ok table' ∧
        table.OrderFree (table.matched .empty) (table.answer .empty ⟨true, false, false⟩)
          (table'.answer .empty ⟨true, false, false⟩) :=
  ⟨_, rfl, List.reverse_perm _,
    exists_orderFree rfl (List.reverse_perm _) .empty ⟨true, false, false⟩⟩

end DecisionTables
