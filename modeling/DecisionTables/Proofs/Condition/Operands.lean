import DecisionTables.Proofs.Condition.Patterns
import Mathlib

/-!
# Operands of condition cells

What a cell is read as that has an operand after its operator, whatever else the text of the operand
could mean. Main statements: a comparison, a range and a list are read as the scalars that their
operands write, where the upper bound of the range leaves no doubt about the two dots before it and
the entries of the list hold no comma.
-/
namespace DecisionTables.Cell
open Text

/-- The text of an operand: not blank, and on one line. -/
structure IsOperand (text : List Char) : Prop where
  visible : isBlank text = false
  line : ∀ c ∈ text, isLineBreak c = false

instance (text : List Char) : Decidable (IsOperand text) :=
  decidable_of_iff (isBlank text = false ∧ text.any isLineBreak = false)
    ⟨fun ⟨hvisible, hline⟩ => ⟨hvisible, by simpa using hline⟩,
      fun h => ⟨h.visible, by simpa using h.line⟩⟩

theorem IsOperand.ne_nil {text : List Char} (h : IsOperand text) : text ≠ [] := by
  rintro rfl
  cases h.visible

theorem IsOperand.isLineSafe {text : List Char} (h : IsOperand text) : isLineSafe text = true :=
  isLineSafe_iff.mpr ⟨h.ne_nil, h.line⟩

theorem IsOperand.isLineSafe_trimRight {text : List Char} (h : IsOperand text) :
    Cell.isLineSafe (trimRight text) = true := by
  have hsubset := (isPrefix_trimRight text).subset
  refine isLineSafe_iff.mpr ⟨fun hnil => ?_, fun c hc => h.line c (hsubset hc)⟩
  have hblank := trimRight_eq_nil_iff.mp hnil
  rw [h.visible] at hblank
  cases hblank

variable {text : List Char} {cell : Operator × Operand}

def Pattern.lead : Pattern → List Char
  | notIn => ['n', 'o', 't']
  | isIn => ['i', 'n']
  | range => ['[']
  | comparison symbol _ => symbol
  | any => ['-']

theorem Fits.lead_prefix {pattern : Pattern} (h : Fits pattern text cell) :
    pattern.lead <+: text := by
  cases h with
  | notIn hSpace hSpace' h => exact List.prefix_append _ _
  | isIn hSpace h => exact List.prefix_append _ _
  | range hLow hHigh hLongest => exact ⟨_, rfl⟩
  | comparison hSpace hOperand => exact List.prefix_append _ _
  | any => exact List.prefix_refl _

/-- The pattern at a place of the table decides if the text does not start as those before it do. -/
theorem asks_of_fits {pattern : Pattern} (n : ℕ) (hn : patterns[n]? = some pattern)
    (hEarlier : ∀ other ∈ patterns.take n, ¬ other.lead <+: text) (h : Fits pattern text cell) :
    Asks text cell := by
  obtain ⟨hlt, hpattern⟩ := List.getElem?_eq_some_iff.mp hn
  have hpatterns : patterns = patterns.take n ++ pattern :: patterns.drop (n + 1) := by
    rw [← hpattern, List.getElem_cons_drop, List.take_append_drop]
  exact .pattern hpatterns (fun other hother _ h' => hEarlier other hother h'.lead_prefix) h

theorem read_of_fits {pattern : Pattern} (n : ℕ) (hn : patterns[n]? = some pattern)
    (hEarlier : ∀ other ∈ patterns.take n, ¬ other.lead <+: text)
    (hStart : StartsOutside isSpace text) (hEnd : EndsOutsideSpace text)
    (h : Fits pattern text cell) : read text = cell := by
  have hasks := asks_of_fits n hn hEarlier h
  rw [← trim_eq_self hStart hEnd] at hasks
  exact read_of_asks hasks

theorem read_trim (text : List Char) : read (trim text) = read text := by
  simp only [read, trim_trim]

/-- Behind its symbol and a space, no operand makes a comparison fit an earlier pattern. -/
theorem exists_place {operator : Operator}
    (hOperator : operator ∈ [Operator.eq, .ne, .lt, .le, .gt, .ge]) :
    ∃ n, patterns[n]? = some (.comparison operator.symbol.toList operator) ∧
      (∀ text, ∀ other ∈ patterns.take n,
        ¬ other.lead <+: operator.symbol.toList ++ ([' '] ++ text)) ∧
      ∀ text, StartsOutside isSpace (operator.symbol.toList ++ text) := by
  simp only [List.mem_cons, List.not_mem_nil, or_false] at hOperator
  rcases hOperator with rfl | rfl | rfl | rfl | rfl | rfl
  · exact ⟨8, rfl, by simp [patterns, Pattern.lead, Operator.symbol],
      fun _ => startsOutside_cons rfl⟩
  · exact ⟨5, rfl, by simp [patterns, Pattern.lead, Operator.symbol],
      fun _ => startsOutside_cons rfl⟩
  · exact ⟨6, rfl, by simp [patterns, Pattern.lead, Operator.symbol],
      fun _ => startsOutside_cons rfl⟩
  · exact ⟨3, rfl, by simp [patterns, Pattern.lead, Operator.symbol],
      fun _ => startsOutside_cons rfl⟩
  · exact ⟨7, rfl, by simp [patterns, Pattern.lead, Operator.symbol],
      fun _ => startsOutside_cons rfl⟩
  · exact ⟨4, rfl, by simp [patterns, Pattern.lead, Operator.symbol],
      fun _ => startsOutside_cons rfl⟩

/-- The operand of a comparison may be any text, also one that looks like a part of another
operator. -/
theorem read_comparison {operator : Operator}
    (hOperator : operator ∈ [Operator.eq, .ne, .lt, .le, .gt, .ge]) (h : IsOperand text) :
    read (operator.symbol.toList ++ ([' '] ++ text)) =
      (operator, .scalar (scalar (trim text))) := by
  obtain ⟨n, hn, hEarlier, hStart⟩ := exists_place hOperator
  have htrim : trim (operator.symbol.toList ++ ([' '] ++ text)) =
      operator.symbol.toList ++ ([' '] ++ trimRight text) := by
    have hStart' := hStart ([' '] ++ text)
    rw [← List.append_assoc] at hStart' ⊢
    rw [trim_append hStart' h.visible, List.append_assoc]
  have hEnd : EndsOutsideSpace (operator.symbol.toList ++ ([' '] ++ trimRight text)) := by
    rw [← htrim]
    exact endsOutsideSpace_trim _
  have hfits := @Fits.comparison operator.symbol.toList [' '] (trimRight text) operator rfl
    h.isLineSafe_trimRight
  rw [trim_trimRight h.visible] at hfits
  rw [← read_trim, htrim]
  exact read_of_fits n hn (hEarlier _) (hStart _) hEnd hfits

/-- Two dots before a text that neither starts with a dot nor holds two dots are the rightmost. -/
theorem length_le_of_dots {low high low' high' : List Char}
    (heq : low' ++ '.' :: '.' :: high' = low ++ '.' :: '.' :: high)
    (hHead : high.head? ≠ some '.') (hDots : ¬ ['.', '.'] <:+: high) :
    low'.length ≤ low.length := by
  rcases List.append_eq_append_iff.mp heq with ⟨middle, rfl, _⟩ | ⟨middle, rfl, hrest⟩
  · simp
  · rcases middle with _ | ⟨c, _ | ⟨d, middle⟩⟩
    · simp
    · simp only [List.cons_append, List.nil_append, List.cons.injEq] at hrest
      rw [hrest.2.2] at hHead
      exact absurd rfl hHead
    · simp only [List.cons_append, List.cons.injEq] at hrest
      exact absurd ⟨middle, high', by rw [hrest.2.2]; simp⟩ hDots

theorem read_range {low high : List Char} (hLow : IsOperand low) (hHigh : IsOperand high)
    (hHead : high.head? ≠ some '.') (hDots : ¬ ['.', '.'] <:+: high) :
    read ('[' :: (low ++ '.' :: '.' :: high ++ [']'])) =
      (.between, .range (scalar (trim low)) (scalar (trim high))) := by
  have hfits := Fits.range hLow.isLineSafe hHigh.isLineSafe fun low' high' heq _ _ =>
    length_le_of_dots heq hHead hDots
  refine read_of_fits 2 rfl ?_ ?_ ?_ hfits
  · simp [patterns, Pattern.lead]
  · exact startsOutside_cons rfl
  · rw [← List.cons_append]
    exact endsOutsideSpace_concat rfl

/-- A comma and a space before each text but the first are a comma before texts with a space in
front. -/
theorem intercalate_comma_space (first : List Char) (others : List (List Char)) :
    [',', ' '].intercalate (first :: others) =
      [','].intercalate (first :: others.map (' ' :: ·)) := by
  induction others generalizing first with
  | nil => simp
  | cons second others ih =>
    rw [List.map_cons, List.intercalate_cons_cons, List.intercalate_cons_cons, ih]
    cases others <;> simp

theorem mem_intercalate {separator : List Char} {pieces : List (List Char)} {c : Char}
    (h : c ∈ separator.intercalate pieces) : c ∈ separator ∨ ∃ piece ∈ pieces, c ∈ piece := by
  induction pieces with
  | nil => cases h
  | cons piece pieces ih =>
    cases pieces with
    | nil =>
      rw [List.intercalate_singleton] at h
      exact .inr ⟨piece, List.mem_cons_self, h⟩
    | cons next pieces =>
      rw [List.intercalate_cons_cons, List.mem_append, List.mem_append] at h
      rcases h with (h | h) | h
      · exact .inr ⟨piece, List.mem_cons_self, h⟩
      · exact .inl h
      · rcases ih h with h | ⟨piece', hpiece', h⟩
        · exact .inl h
        · exact .inr ⟨piece', List.mem_cons_of_mem _ hpiece', h⟩

theorem Listed.endsOutsideSpace (h : Listed text items) :
    EndsOutsideSpace text := by
  obtain ⟨_, _⟩ := h
  rw [← List.cons_append]
  exact endsOutsideSpace_concat rfl

/-- Texts with a comma and a space between two of them are the entries of a list. -/
theorem listed_texts {texts : List (List Char)} (hne : texts ≠ [])
    (h : ∀ text ∈ texts, IsOperand text) (hComma : ∀ text ∈ texts, ',' ∉ text) :
    Listed ('(' :: ([',', ' '].intercalate texts ++ [')']))
      (texts.map fun text => scalar (trim text)) := by
  obtain ⟨first, others, rfl⟩ := List.exists_cons_of_ne_nil hne
  have hEntries : ∀ entry ∈ first :: others.map (' ' :: ·), ',' ∉ entry := by
    refine List.forall_mem_cons.mpr ⟨hComma first List.mem_cons_self, ?_⟩
    intro entry hentry
    obtain ⟨text, htext, rfl⟩ := List.mem_map.mp hentry
    simpa using hComma text (List.mem_cons_of_mem _ htext)
  have hLine : isLineSafe ([',', ' '].intercalate (first :: others)) = true := by
    refine isLineSafe_iff.mpr ⟨?_, fun c hc => ?_⟩
    · obtain ⟨c, rest, hfirst⟩ := List.exists_cons_of_ne_nil (h first List.mem_cons_self).ne_nil
      rw [hfirst, List.intercalate_cons_cons_left]
      exact List.cons_ne_nil _ _
    · rcases mem_intercalate hc with hc | ⟨text, htext, hc⟩
      · simp only [List.mem_cons, List.not_mem_nil, or_false] at hc
        rcases hc with rfl | rfl <;> rfl
      · exact (h text htext).line c hc
  have hItems : (first :: others).map (fun text => scalar (trim text)) =
      (first :: others.map (' ' :: ·)).map fun entry => scalar (trim entry) := by
    rw [List.map_cons, List.map_cons, List.map_map]
    refine congrArg (_ :: ·) (List.map_congr_left fun text _ => ?_)
    exact congrArg scalar (trim_space_append (show isBlank [' '] = true from rfl) text).symm
  rw [intercalate_comma_space] at hLine ⊢
  rw [hItems]
  exact .entries hEntries hLine

/-- Whatever stands between parentheses is a list. -/
theorem exists_listed (h : IsOperand text) : ∃ items, Listed ('(' :: (text ++ [')'])) items := by
  have hpieces : [','].intercalate (text.splitOn ',') = text := List.intercalate_splitOn ','
  have hlisted := @Listed.entries (text.splitOn ',')
    (fun _ hpiece => not_mem_of_mem_splitOn hpiece) (by rw [hpieces]; exact h.isLineSafe)
  rw [hpieces] at hlisted
  exact ⟨_, hlisted⟩

theorem read_listed {operator : Operator} {list : List Char} {items : List Value}
    (hOperator : operator = .isIn ∨ operator = .notIn) (h : Listed list items) :
    read (operator.symbol.toList ++ ([' '] ++ list)) = (operator, .list items) := by
  have hspace : isBlank [' '] = true := rfl
  have hne : list ≠ [] := by
    rintro rfl
    cases h
  rcases hOperator with rfl | rfl
  · have hfits := Fits.isIn hspace h
    refine read_of_fits 1 rfl ?_ (startsOutside_cons rfl) ?_ hfits
    · simp [patterns, Pattern.lead, Operator.symbol]
    · rw [← List.append_assoc]
      exact h.endsOutsideSpace.append_left hne _
  · have hfits := Fits.notIn hspace hspace h
    refine read_of_fits 0 rfl ?_ (startsOutside_cons rfl) ?_ hfits
    · simp
    · exact h.endsOutsideSpace.append_left hne ['n', 'o', 't', ' ', 'i', 'n', ' ']

end DecisionTables.Cell
