import DecisionTables.Table.Resolution
import DecisionTables.Proofs.Number.Order
import Mathlib

/-!
# The foremost match

The matches are reduced one after the other by their priorities, of which any may be not-a-number.
Main statement: after each match, the one that is kept is the first of those seen so far that leads
all of them.
-/
namespace DecisionTables
open Table

namespace Match

/-- The priority of a match is no less than that of another one, or the other one has
not-a-number. -/
def Leads (m n : Match) : Prop :=
  Number.Leads (· ≥ ·) m.rule.effectivePriority n.rule.effectivePriority

theorem leads_refl (m : Match) : m.Leads m := Number.leads_refl le_refl _

theorem Leads.trans {m n k : Match} (hmn : m.Leads n) (hnk : n.Leads k) : m.Leads k :=
  Number.leads_trans ge_trans hmn hnk

theorem leads_total (m n : Match) : m.Leads n ∨ n.Leads m :=
  Number.leads_total (fun p q => le_total q p) _ _

end Match

theorem prior_of_leads {m n : Match} (h : m.Leads n) : prior m n = m :=
  if_neg fun hlater => Number.not_leads_iff.mpr hlater h

theorem prior_of_not_leads {m n : Match} (h : ¬ m.Leads n) : prior m n = n :=
  if_pos (Number.not_leads_iff.mp h)

def FirstForemost (hits : List Match) (m : Match) : Prop :=
  ∃ earlier later, hits = earlier ++ m :: later ∧ (∀ n ∈ earlier, ¬ n.Leads m) ∧
    ∀ n ∈ later, m.Leads n

namespace FirstForemost

variable {hits : List Match} {m : Match}

theorem mem (h : FirstForemost hits m) : m ∈ hits := by
  obtain ⟨earlier, later, rfl, -, -⟩ := h
  simp

theorem leads (h : FirstForemost hits m) {n : Match} (hn : n ∈ hits) : m.Leads n := by
  obtain ⟨earlier, later, rfl, hearlier, hlater⟩ := h
  rcases List.mem_append.mp hn with hn | hn
  · exact (m.leads_total n).resolve_right (hearlier n hn)
  · rcases List.mem_cons.mp hn with rfl | hn
    · exact n.leads_refl
    · exact hlater n hn

/-- One more match takes over only if it is not led by the one that is kept. -/
theorem step (h : FirstForemost hits m) (n : Match) : FirstForemost (hits ++ [n]) (prior m n) := by
  by_cases hmn : m.Leads n
  · obtain ⟨earlier, later, rfl, hearlier, hlater⟩ := h
    rw [prior_of_leads hmn]
    refine ⟨earlier, later ++ [n], by simp, hearlier, fun k hk => ?_⟩
    rcases List.mem_append.mp hk with hk | hk
    · exact hlater k hk
    · rwa [List.mem_singleton.mp hk]
  · rw [prior_of_not_leads hmn]
    -- The one that was kept leads all that were seen, so none of them leads the new one.
    exact ⟨hits, [], rfl, fun k hk hkn => hmn ((h.leads hk).trans hkn), by simp⟩

theorem foldl (h : FirstForemost hits m) (rest : List Match) :
    FirstForemost (hits ++ rest) (rest.foldl prior m) := by
  induction rest generalizing hits m with
  | nil => simpa using h
  | cons n rest ih =>
    have hrest := ih (h.step n)
    rwa [List.append_assoc] at hrest

end FirstForemost

theorem exists_foremost?_of_mem {hits : List Match} {n : Match} (h : n ∈ hits) :
    ∃ m, foremost? hits = some m := by
  cases hits with
  | nil => cases h
  | cons first rest => exact ⟨_, rfl⟩

theorem firstForemost_of_foremost? {hits : List Match} {m : Match}
    (h : foremost? hits = some m) : FirstForemost hits m := by
  cases hits with
  | nil => cases h
  | cons first rest =>
    cases h
    have hfirst : FirstForemost [first] first := ⟨[], [], rfl, by simp, by simp⟩
    exact hfirst.foldl rest

end DecisionTables
