import DecisionTables.Proofs.Table.Reordering

/-!
# Disagreement of the matches

Where the matches have to agree, a violation is a real disagreement of two of them. The one
exception is a sole match with not-a-number among its outputs: it is compared with itself, and
not-a-number is equal to nothing.
-/
namespace DecisionTables

namespace Outputs

/-- Equal values in the same columns. -/
def Same (a b : Outputs) : Prop :=
  ∀ column, Option.Rel (fun v w => Value.equal v w = true) (a.get? column) (b.get? column)

def HoldsNaN (a : Outputs) : Prop := ∃ column, a.get? column = some (.number .nan)

end Outputs

theorem Value.equal_self_iff {v : Value} : v.equal v = true ↔ v ≠ .number .nan := by
  cases v with
  | number x =>
    rw [Value.equal, Number.equal_iff]
    cases x <;> simp [Number.isNaN]
  | _ => simp [Value.equal]

theorem Fields.lookup_eq_none_of_le {α : Type} {name name' : String} {value : α}
    {rest : List (String × α)} (h : Fields.Sorted ((name', value) :: rest)) (hle : name ≤ name') :
    rest.lookup name = none := by
  refine List.lookup_eq_none_iff.mpr fun e he => ?_
  have hlt : name' < e.1 := compare_lt_iff_lt.mp ((List.pairwise_cons.mp h).1 e he)
  exact bne_iff_ne.mpr (lt_of_le_of_lt hle hlt).ne

namespace Table

theorem agree_iff_lookup {as bs : List (String × Value)} (ha : Fields.Sorted as)
    (hb : Fields.Sorted bs) :
    agree as bs = true ↔ ∀ column,
      Option.Rel (fun v w => Value.equal v w = true) (as.lookup column) (bs.lookup column) := by
  induction as generalizing bs with
  | nil =>
    cases bs with
    | nil => exact iff_of_true rfl fun _ => .none
    | cons f bs =>
      refine iff_of_false nofun fun h => ?_
      have hfirst := h f.1
      rw [List.lookup_nil, List.lookup_cons_self] at hfirst
      cases hfirst
  | cons e as ih =>
    obtain ⟨k, v⟩ := e
    cases bs with
    | nil =>
      refine iff_of_false nofun fun h => ?_
      have hfirst := h k
      rw [List.lookup_nil, List.lookup_cons_self] at hfirst
      cases hfirst
    | cons f bs =>
      obtain ⟨l, w⟩ := f
      have hrest := ih (List.pairwise_cons.mp ha).2 (List.pairwise_cons.mp hb).2
      rw [agree, Bool.and_eq_true, Bool.and_eq_true, beq_iff_eq, hrest]
      constructor
      · rintro ⟨⟨rfl, hvw⟩, h⟩ column
        by_cases hk : column = k
        · subst hk
          rw [List.lookup_cons_self, List.lookup_cons_self]
          exact .some hvw
        · rw [Fields.lookup_cons_of_ne hk, Fields.lookup_cons_of_ne hk]
          exact h column
      · intro h
        have hkl : k = l := by
          -- The lesser of the two names would be missing on the other side.
          by_contra hne
          rcases lt_or_gt_of_ne hne with hlt | hgt
          · have hk := h k
            rw [List.lookup_cons_self, Fields.lookup_cons_of_ne hne,
              Fields.lookup_eq_none_of_le hb hlt.le] at hk
            cases hk
          · have hl := h l
            rw [List.lookup_cons_self, Fields.lookup_cons_of_ne (Ne.symm hne),
              Fields.lookup_eq_none_of_le ha hgt.le] at hl
            cases hl
        subst hkl
        refine ⟨⟨rfl, ?_⟩, fun column => ?_⟩
        · have hk := h k
          rw [List.lookup_cons_self, List.lookup_cons_self] at hk
          cases hk
          assumption
        · by_cases hk : column = k
          · subst hk
            rw [Fields.lookup_eq_none_of_le ha le_rfl, Fields.lookup_eq_none_of_le hb le_rfl]
            exact .none
          · have hcolumn := h column
            rwa [Fields.lookup_cons_of_ne hk, Fields.lookup_cons_of_ne hk] at hcolumn

theorem agree_iff {a b : Outputs} : agree a.entries b.entries = true ↔ a.Same b :=
  agree_iff_lookup a.sorted b.sorted

theorem agree_self_iff {a : Outputs} : agree a.entries a.entries = true ↔ ¬ a.HoldsNaN := by
  rw [agree_iff]
  constructor
  · rintro h ⟨column, hnan⟩
    have hcolumn := h column
    rw [hnan] at hcolumn
    cases hcolumn with
    | some hequal => exact Value.equal_self_iff.mp hequal rfl
  · intro h column
    cases hcolumn : a.get? column with
    | none => exact .none
    | some v =>
      refine .some (Value.equal_self_iff.mpr ?_)
      rintro rfl
      exact h ⟨column, hcolumn⟩

def Disagree (hits : List Match) : Prop :=
  ∃ (i j : ℕ) (m n : Match), i < j ∧ hits[i]? = some m ∧ hits[j]? = some n ∧
    ¬ Outputs.Same m.outputs n.outputs

theorem Disagree.two_le_length {hits : List Match} (h : Disagree hits) : 2 ≤ hits.length := by
  obtain ⟨i, j, m, n, hij, -, hj, -⟩ := h
  have hlt := (List.getElem?_eq_some_iff.mp hj).1
  omega

/-- Of several matches that do not all agree, one disagrees with the first one. -/
theorem disagree_of_allAgree {first second : Match} {rest : List Match}
    (h : allAgree (first :: second :: rest) = false) : Disagree (first :: second :: rest) := by
  by_cases hsecond : agree first.outputs.entries second.outputs.entries = true
  · -- The first one agrees with the second one, and thus with itself.
    have hself := agree_trans hsecond (agree_symm hsecond)
    rw [allAgree, List.all_cons, hself, Bool.true_and, List.all_eq_false] at h
    obtain ⟨n, hn, hdiffer⟩ := h
    obtain ⟨j, hj⟩ := List.getElem?_of_mem hn
    refine ⟨0, j + 1, first, n, Nat.succ_pos j, rfl, hj, fun hsame => hdiffer ?_⟩
    exact agree_symm (agree_iff.mpr hsame)
  · exact ⟨0, 1, first, second, Nat.one_pos, rfl, rfl, fun hsame => hsecond (agree_iff.mpr hsame)⟩

/-- The matches fail to agree exactly if two of them disagree, or if there is only one and it has
not-a-number. -/
theorem allAgree_eq_false_iff {hits : List Match} :
    allAgree hits = false ↔ Disagree hits ∨ ∃ m, hits = [m] ∧ Outputs.HoldsNaN m.outputs := by
  constructor
  · intro h
    match hits, h with
    | [m], h =>
      refine .inr ⟨m, rfl, ?_⟩
      rw [allAgree, List.all_cons, List.all_nil, Bool.and_true] at h
      by_contra hnan
      rw [agree_self_iff.mpr hnan] at h
      cases h
    | first :: second :: rest, h => exact .inl (disagree_of_allAgree h)
  · rintro (⟨i, j, m, n, -, hi, hj, hdiffer⟩ | ⟨m, rfl, hnan⟩) <;>
      refine Bool.eq_false_iff.mpr fun h => ?_
    · exact hdiffer (agree_iff.mp (allAgree_iff.mp h m (List.mem_of_getElem? hi) n
        (List.mem_of_getElem? hj)))
    · exact agree_self_iff.mp (allAgree_iff.mp h m List.mem_cons_self m List.mem_cons_self) hnan

/-- A table fails only if two matching rules disagree, and decides by a sole matching rule. -/
structure FailsOnlyOnDisagreement (table : Table) (record : FactRecord) (options : Options) :
    Prop where
  violation : ∀ e, table.evaluate record options = .error e → e.policy? ≠ none →
    e = .outputsDiffer (table.matched record).length ∧ 2 ≤ (table.matched record).length ∧
      Disagree (table.matched record)
  sole : ∀ m, table.matched record = [m] → ∃ decision,
    table.answer record options = .ok decision ∧
      (table.under .first table.aggregation).answer record options = .ok decision

variable {table : Table} {record : FactRecord} {options : Options}

theorem resolve_any (hpolicy : table.policy = .any) (hits : List Match) :
    table.resolve hits =
      if allAgree hits then .ok (.single (table.outputsOrDefaults hits.head?))
      else .error (.outputsDiffer hits.length) := by
  simp only [resolve, hpolicy]

theorem answer_of_sole {decision : Decision} {m : Match} (hm : table.matched record = [m])
    (h : table.resolve [m] = .ok decision) : table.answer record options = .ok decision := by
  rw [answer_of_ne_nil (by simp [hm]), hm, h]

/-- Where a sole matching rule gives not-a-number, the table fails; everywhere else it fails on a
disagreement only. -/
theorem failsOnlyOnDisagreement_iff (hpolicy : table.policy = .any) :
    table.FailsOnlyOnDisagreement record options ↔
      ∀ m, table.matched record = [m] → ¬ Outputs.HoldsNaN m.outputs := by
  have hresolve := resolve_any hpolicy
  constructor
  · intro h m hm hnan
    obtain ⟨decision, hanswer, -⟩ := h.sole m hm
    have hok := resolve_of_answer_eq_ok hanswer
    rw [hm, hresolve, allAgree_eq_false_iff.mpr (.inr ⟨m, rfl, hnan⟩)] at hok
    cases hok
  · intro h
    constructor
    · intro e he hviolated
      cases hagree : allAgree (table.matched record) with
      | true =>
        rw [evaluate_of_ok ((hresolve _).trans (if_pos hagree))] at he
        split_ifs at he
        cases he
        exact absurd rfl hviolated
      | false =>
        rw [evaluate_of_error ((hresolve _).trans (if_neg (by simp [hagree])))] at he
        cases he
        rcases allAgree_eq_false_iff.mp hagree with hdisagree | ⟨m, hm, hnan⟩
        · exact ⟨rfl, hdisagree.two_le_length, hdisagree⟩
        · exact absurd hnan (h m hm)
    · intro m hm
      have hagree : allAgree [m] = true := by
        rw [← Bool.not_eq_false, allAgree_eq_false_iff]
        rintro (hdisagree | ⟨_, heq, hnan⟩)
        · exact absurd hdisagree.two_le_length (by simp)
        · cases heq
          exact h m hm hnan
      exact ⟨.single m.outputs, answer_of_sole hm ((hresolve _).trans (if_pos hagree)),
        answer_of_sole hm rfl⟩

end Table

/-- Two rules for a score, of which the second one matches only if there is a score. -/
def scoreDraft : Draft where
  policy := .any
  aggregation := .none
  inputs := [⟨"score", .number, none, none⟩]
  outputs := [⟨"points", .number, none, none⟩]
  rules := [⟨none, [], [("points", .number .nan)], none, none⟩,
    ⟨none, [⟨"score", .ne, .scalar .null⟩], [("points", .string " 5 ")], none, none⟩]

theorem Table.failsOnlyOnDisagreement_iff_score :
    ∃ table, scoreDraft.build = .ok table ∧ table.policy = .any ∧
      (table.matched (.ofList [("score", .bool true)])).length = 2 ∧
      (table.FailsOnlyOnDisagreement (.ofList [("score", .bool true)]) .default ↔
        ∀ m, table.matched (.ofList [("score", .bool true)]) = [m] →
          ¬ Outputs.HoldsNaN m.outputs) :=
  ⟨_, rfl, rfl, rfl, failsOnlyOnDisagreement_iff rfl⟩

/-- Without a score one rule matches, and the table fails for a disagreement with itself. -/
theorem Table.not_failsOnlyOnDisagreement_score :
    ∃ table m, scoreDraft.build = .ok table ∧ table.policy = .any ∧
      table.matched .empty = [m] ∧
      table.evaluate .empty .default = .error (.outputsDiffer 1) ∧
      (table.under .first .none).answer .empty .default = .ok (.single m.outputs) ∧
      ¬ table.FailsOnlyOnDisagreement .empty .default := by
  refine ⟨_, _, rfl, rfl, rfl, rfl, rfl, fun h => ?_⟩
  obtain ⟨-, hlength, -⟩ := h.violation _ rfl nofun
  exact absurd hlength (by decide)

end DecisionTables
