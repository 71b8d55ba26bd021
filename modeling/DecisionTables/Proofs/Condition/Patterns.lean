import DecisionTables.Proofs.Condition.Scalars
import Mathlib

/-!
# The patterns of condition cells

A table of patterns, each with the texts that fit it and the condition that these ask for. Main
statement: a cell is read as the condition of the first pattern that its trimmed text fits, and as
equality with the scalar of that text if it fits none.
-/
namespace DecisionTables.Cell
open Text

inductive Pattern where
  | notIn
  | isIn
  | range
  | comparison (symbol : List Char) (operator : Operator)
  | any

def patterns : List Pattern :=
  [.notIn, .isIn, .range, .comparison ['<', '='] .le, .comparison ['>', '='] .ge,
    .comparison ['!', '='] .ne, .comparison ['<'] .lt, .comparison ['>'] .gt,
    .comparison ['='] .eq, .any]

/-- Entries between parentheses, a comma between two of them, with the values that they write. -/
inductive Listed : List Char → List Value → Prop
  | entries {entries : List (List Char)} (hComma : ∀ entry ∈ entries, ',' ∉ entry)
      (hLine : isLineSafe ([','].intercalate entries) = true) :
      Listed ('(' :: ([','].intercalate entries ++ [')']))
        (entries.map fun entry => scalar (trim entry))

/-- The text that fits a pattern, with the condition that it asks for. Of the bounds that two dots
separate, the lower one is as long as it can be. -/
inductive Fits : Pattern → List Char → Operator × Operand → Prop
  | notIn {space space' list : List Char} {items : List Value} (hSpace : isBlank space = true)
      (hSpace' : isBlank space' = true) (h : Listed list items) :
      Fits .notIn (['n', 'o', 't'] ++ (space ++ (['i', 'n'] ++ (space' ++ list))))
        (.notIn, .list items)
  | isIn {space list : List Char} {items : List Value} (hSpace : isBlank space = true)
      (h : Listed list items) : Fits .isIn (['i', 'n'] ++ (space ++ list)) (.isIn, .list items)
  | range {low high : List Char} (hLow : isLineSafe low = true) (hHigh : isLineSafe high = true)
      (hLongest : ∀ low' high', low' ++ '.' :: '.' :: high' = low ++ '.' :: '.' :: high →
        isLineSafe low' = true → isLineSafe high' = true → low'.length ≤ low.length) :
      Fits .range ('[' :: (low ++ '.' :: '.' :: high ++ [']']))
        (.between, .range (scalar (trim low)) (scalar (trim high)))
  | comparison {symbol space operand : List Char} {operator : Operator}
      (hSpace : isBlank space = true) (hOperand : isLineSafe operand = true) :
      Fits (.comparison symbol operator) (symbol ++ (space ++ operand))
        (operator, .scalar (scalar (trim operand)))
  | any : Fits .any ['-'] (.any, .none)

/-- What a trimmed text asks for. -/
inductive Asks (text : List Char) : Operator × Operand → Prop
  | pattern {earlier later : List Pattern} {pattern : Pattern} {cell : Operator × Operand}
      (hPatterns : patterns = earlier ++ pattern :: later)
      (hEarlier : ∀ other ∈ earlier, ∀ cell', ¬ Fits other text cell')
      (h : Fits pattern text cell) : Asks text cell
  | scalar (hNone : ∀ pattern ∈ patterns, ∀ cell, ¬ Fits pattern text cell) :
      Asks text (.eq, .scalar (Cell.scalar text))

theorem beforeLast?_eq_some_iff {c : Char} {text body : List Char} :
    beforeLast? c text = some body ↔ text = body ++ [c] := by
  constructor
  · intro h
    unfold beforeLast? at h
    split_ifs at h with hlast
    cases h
    exact (List.dropLast_append_getLast? c hlast).symm
  · rintro rfl
    simp [beforeLast?]

theorem entries?_eq_some_iff {text : List Char} {items : List Value} :
    entries? text = some items ↔ Listed text items := by
  constructor
  · intro h
    unfold entries? at h
    split at h
    case h_1 rest =>
      obtain ⟨body, hbody, h⟩ := Option.bind_eq_some_iff.mp h
      split_ifs at h with hline
      cases h
      have hpieces : [','].intercalate (body.splitOn ',') = body := List.intercalate_splitOn ','
      rw [beforeLast?_eq_some_iff.mp hbody]
      have hlisted := @Listed.entries (body.splitOn ',')
        (fun _ hpiece => not_mem_of_mem_splitOn hpiece) (by rw [hpieces]; exact hline)
      rwa [hpieces] at hlisted
    case h_2 => cases h
  · intro h
    cases h with
    | @entries pieces hComma hLine =>
      have hne : pieces ≠ [] := by
        rintro rfl
        cases hLine
      have hbody : beforeLast? ')' ([','].intercalate pieces ++ [')']) =
          some ([','].intercalate pieces) := beforeLast?_eq_some_iff.mpr rfl
      simp only [entries?, hbody, Option.bind_eq_bind, Option.bind_some, hLine, if_true]
      rw [List.splitOn_intercalate ',' hComma hne]

theorem Listed.startsOutside {text : List Char} {items : List Value} (h : Listed text items) :
    StartsOutside isSpace text := by
  obtain ⟨_, _⟩ := h
  exact startsOutside_cons rfl

/-- Two dots cut a text in two, and something follows them. -/
def IsCut (text low high : List Char) : Prop := text = low ++ '.' :: '.' :: high ∧ high ≠ []

theorem isCut_nil_left {c : Char} {rest high : List Char} :
    IsCut (c :: rest) [] high ↔ c = '.' ∧ rest = '.' :: high ∧ high ≠ [] := by
  simp [IsCut, and_assoc]

theorem isCut_cons_left {c d : Char} {rest low high : List Char} :
    IsCut (c :: rest) (d :: low) high ↔ c = d ∧ IsCut rest low high := by
  simp [IsCut, and_assoc]

theorem splitAtDots?_cons_of_some {c : Char} {rest low high : List Char}
    (h : splitAtDots? rest = some (low, high)) :
    splitAtDots? (c :: rest) = some (c :: low, high) := by
  rw [splitAtDots?.eq_def]
  simp only [h]

theorem splitAtDots?_cons_of_none {c : Char} {rest low high : List Char}
    (h : splitAtDots? rest = none) :
    splitAtDots? (c :: rest) = some (low, high) ↔ low = [] ∧ IsCut (c :: rest) low high := by
  rw [splitAtDots?.eq_def]
  simp only [h]
  constructor
  · intro hcut
    split at hcut
    case h_1 d high₁ =>
      cases hcut
      exact ⟨rfl, isCut_nil_left.mpr ⟨rfl, rfl, List.cons_ne_nil _ _⟩⟩
    case h_2 => cases hcut
  · rintro ⟨rfl, hcut⟩
    obtain ⟨rfl, rfl, hhigh⟩ := isCut_nil_left.mp hcut
    obtain ⟨d, high, rfl⟩ := List.exists_cons_of_ne_nil hhigh
    rfl

theorem exists_splitAtDots? {text low high : List Char} (h : IsCut text low high) :
    ∃ low' high', splitAtDots? text = some (low', high') := by
  induction text generalizing low with
  | nil => simp [IsCut] at h
  | cons c rest ih =>
    cases hrest : splitAtDots? rest with
    | some cut => exact ⟨_, _, splitAtDots?_cons_of_some hrest⟩
    | none =>
      cases low with
      | nil => exact ⟨_, _, (splitAtDots?_cons_of_none hrest).mpr ⟨rfl, h⟩⟩
      | cons d low =>
        obtain ⟨_, _, hcut⟩ := ih (isCut_cons_left.mp h).2
        rw [hrest] at hcut
        cases hcut

theorem splitAtDots?_sound {text low high : List Char} (h : splitAtDots? text = some (low, high)) :
    IsCut text low high ∧ ∀ low' high', IsCut text low' high' → low'.length ≤ low.length := by
  induction text generalizing low with
  | nil => cases h
  | cons c rest ih =>
    cases hrest : splitAtDots? rest with
    | some cut =>
      rw [splitAtDots?_cons_of_some hrest] at h
      cases h
      obtain ⟨hcut, hlongest⟩ := ih hrest
      refine ⟨isCut_cons_left.mpr ⟨rfl, hcut⟩, fun low' high' h' => ?_⟩
      cases low' with
      | nil => exact Nat.zero_le _
      | cons d low' =>
        have hle := hlongest low' high' (isCut_cons_left.mp h').2
        simp only [List.length_cons]
        omega
    | none =>
      obtain ⟨rfl, hcut⟩ := (splitAtDots?_cons_of_none hrest).mp h
      refine ⟨hcut, fun low' high' h' => ?_⟩
      cases low' with
      | nil => exact Nat.le_refl _
      | cons d low' =>
        obtain ⟨_, _, hcut'⟩ := exists_splitAtDots? (isCut_cons_left.mp h').2
        rw [hrest] at hcut'
        cases hcut'

/-- The bounds that the reader takes are the longest lower bound and what follows it. -/
theorem splitBounds?_eq_some_iff {text low high : List Char} :
    splitBounds? text = some (low, high) ↔
      (IsCut text low high ∧ low ≠ []) ∧
        ∀ low' high', IsCut text low' high' → low' ≠ [] → low'.length ≤ low.length := by
  cases text with
  | nil => simp [splitBounds?, IsCut]
  | cons c rest =>
    constructor
    · intro h
      obtain ⟨⟨low₁, high₁⟩, hcut, heq⟩ := Option.map_eq_some_iff.mp h
      cases heq
      obtain ⟨hcut, hlongest⟩ := splitAtDots?_sound hcut
      refine ⟨⟨isCut_cons_left.mpr ⟨rfl, hcut⟩, List.cons_ne_nil _ _⟩, ?_⟩
      intro low' high' h' hne
      obtain ⟨d, low', rfl⟩ := List.exists_cons_of_ne_nil hne
      have hle := hlongest low' high' (isCut_cons_left.mp h').2
      simp only [List.length_cons]
      omega
    · rintro ⟨⟨hcut, hne⟩, hlongest⟩
      obtain ⟨d, low, rfl⟩ := List.exists_cons_of_ne_nil hne
      obtain ⟨rfl, hcut'⟩ := isCut_cons_left.mp hcut
      obtain ⟨low₁, high₁, hsplit⟩ := exists_splitAtDots? hcut'
      obtain ⟨hcut₁, hlongest₁⟩ := splitAtDots?_sound hsplit
      have hle := hlongest₁ low high hcut'
      have hge := hlongest (c :: low₁) high₁ (isCut_cons_left.mpr ⟨rfl, hcut₁⟩)
        (List.cons_ne_nil _ _)
      simp only [List.length_cons] at hge
      have hlength : low₁.length = low.length := by omega
      have hboth := hcut₁.1.symm.trans hcut'.1
      obtain ⟨rfl, hdots⟩ := List.append_inj hboth hlength
      cases hdots
      rw [splitBounds?, hsplit]
      rfl

theorem exists_splitBounds? {text low high : List Char} (h : IsCut text low high) (hne : low ≠ []) :
    ∃ cut, splitBounds? text = some cut := by
  obtain ⟨c, low, rfl⟩ := List.exists_cons_of_ne_nil hne
  cases text with
  | nil => simp [IsCut] at h
  | cons d rest =>
    obtain ⟨low', high', hsplit⟩ := exists_splitAtDots? (isCut_cons_left.mp h).2
    refine ⟨(d :: low', high'), ?_⟩
    rw [splitBounds?, hsplit]
    rfl

variable {text : List Char} {cell : Operator × Operand}

theorem notInList?_eq_some_iff : notInList? text = some cell ↔ Fits .notIn text cell := by
  constructor
  · intro h
    obtain ⟨rest, hnot, h⟩ := Option.bind_eq_some_iff.mp h
    obtain ⟨rest', hin, h⟩ := Option.bind_eq_some_iff.mp h
    obtain ⟨items, hitems, h⟩ := Option.bind_eq_some_iff.mp h
    cases h
    have hfits := Fits.notIn (isBlank_takeWhile rest) (isBlank_takeWhile rest')
      (entries?_eq_some_iff.mp hitems)
    rwa [takeWhile_append_trimLeft, ← after?_eq_some_iff.mp hin, takeWhile_append_trimLeft,
      ← after?_eq_some_iff.mp hnot] at hfits
  · intro h
    cases h with
    | @notIn space space' list items hSpace hSpace' h =>
      have hin : trimLeft (space ++ (['i', 'n'] ++ (space' ++ list))) =
          ['i', 'n'] ++ (space' ++ list) :=
        trimLeft_run hSpace (startsOutside_cons rfl)
      simp only [notInList?, after?_eq_some_iff.mpr rfl, hin, trimLeft_run hSpace' h.startsOutside,
        entries?_eq_some_iff.mpr h, Option.bind_eq_bind, Option.bind_some]

theorem inList?_eq_some_iff : inList? text = some cell ↔ Fits .isIn text cell := by
  constructor
  · intro h
    obtain ⟨rest, hin, h⟩ := Option.bind_eq_some_iff.mp h
    obtain ⟨items, hitems, h⟩ := Option.bind_eq_some_iff.mp h
    cases h
    have hfits := Fits.isIn (isBlank_takeWhile rest) (entries?_eq_some_iff.mp hitems)
    rwa [takeWhile_append_trimLeft, ← after?_eq_some_iff.mp hin] at hfits
  · intro h
    cases h with
    | @isIn space list items hSpace h =>
      simp only [inList?, after?_eq_some_iff.mpr rfl, trimLeft_run hSpace h.startsOutside,
        entries?_eq_some_iff.mpr h, Option.bind_eq_bind, Option.bind_some]

theorem IsCut.isLineSafe {body low high low' high' : List Char}
    (h : IsCut body low high) (hLow : isLineSafe low = true) (hHigh : isLineSafe high = true)
    (h' : IsCut body low' high') (hne : low' ≠ []) :
    isLineSafe low' = true ∧ isLineSafe high' = true := by
  have hbody : ∀ c ∈ body, isLineBreak c = false := by
    intro c hc
    rw [h.1, List.mem_append] at hc
    rcases hc with hc | hc
    · exact (isLineSafe_iff.mp hLow).2 c hc
    · rcases List.mem_cons.mp hc with rfl | hc
      · rfl
      · rcases List.mem_cons.mp hc with rfl | hc
        · rfl
        · exact (isLineSafe_iff.mp hHigh).2 c hc
  rw [h'.1] at hbody
  refine ⟨isLineSafe_iff.mpr ⟨hne, fun c hc => ?_⟩, isLineSafe_iff.mpr ⟨h'.2, fun c hc => ?_⟩⟩
  · exact hbody c (List.mem_append_left _ hc)
  · exact hbody c (List.mem_append_right _ (List.mem_cons_of_mem _ (List.mem_cons_of_mem _ hc)))

theorem range?_eq_some_iff : range? text = some cell ↔ Fits .range text cell := by
  constructor
  · intro h
    unfold range? at h
    split at h
    case h_1 rest =>
      obtain ⟨body, hbody, h⟩ := Option.bind_eq_some_iff.mp h
      obtain ⟨⟨low, high⟩, hbounds, h⟩ := Option.bind_eq_some_iff.mp h
      dsimp only at h
      split_ifs at h with hline
      cases h
      obtain ⟨hLow, hHigh⟩ := Bool.and_eq_true_iff.mp hline
      obtain ⟨⟨⟨rfl, _⟩, _⟩, hlongest⟩ := splitBounds?_eq_some_iff.mp hbounds
      rw [beforeLast?_eq_some_iff.mp hbody]
      refine Fits.range hLow hHigh fun low' high' heq hLow' hHigh' => ?_
      exact hlongest low' high' ⟨heq.symm, (isLineSafe_iff.mp hHigh').1⟩ (isLineSafe_iff.mp hLow').1
    case h_2 => cases h
  · intro h
    cases h with
    | @range low high hLow hHigh hLongest =>
      have hcut : IsCut (low ++ '.' :: '.' :: high) low high := ⟨rfl, (isLineSafe_iff.mp hHigh).1⟩
      have hbounds : splitBounds? (low ++ '.' :: '.' :: high) = some (low, high) := by
        refine splitBounds?_eq_some_iff.mpr ⟨⟨hcut, (isLineSafe_iff.mp hLow).1⟩, ?_⟩
        intro low' high' h' hne
        obtain ⟨hLow', hHigh'⟩ := hcut.isLineSafe hLow hHigh h' hne
        exact hLongest low' high' h'.1.symm hLow' hHigh'
      have hbody : beforeLast? ']' (low ++ '.' :: '.' :: high ++ [']']) =
          some (low ++ '.' :: '.' :: high) := beforeLast?_eq_some_iff.mpr rfl
      simp only [range?, hbody, hbounds, hLow, hHigh, Option.bind_eq_bind, Option.bind_some,
        Bool.and_self, if_true]

def comparisonBy? (symbol : List Char) (operator : Operator) (text : List Char) :
    Option (Operator × Operand) := do
  let operand := trimLeft (← after? symbol text)
  if isLineSafe operand then some (operator, .scalar (scalar (trim operand))) else none

/-- Skipped white space can only be followed by more of the operand: a trimmed text does not end
inside it. -/
theorem comparisonBy?_eq_some_iff {symbol : List Char} {operator : Operator}
    (hEnd : EndsOutsideSpace text) :
    comparisonBy? symbol operator text = some cell ↔
      Fits (.comparison symbol operator) text cell := by
  constructor
  · intro h
    obtain ⟨rest, hsymbol, h⟩ := Option.bind_eq_some_iff.mp h
    dsimp only at h
    split_ifs at h with hline
    cases h
    have hfits := @Fits.comparison symbol _ _ operator (isBlank_takeWhile rest) hline
    rwa [takeWhile_append_trimLeft, ← after?_eq_some_iff.mp hsymbol] at hfits
  · intro h
    cases h with
    | @comparison _ space operand _ hSpace hOperand =>
      obtain ⟨hne, hline⟩ := isLineSafe_iff.mp hOperand
      have hblank : ¬ isBlank operand = true := hEnd.right.right.not_isBlank hne
      have hrest : isLineSafe (trimLeft operand) = true := by
        refine isLineSafe_iff.mpr ⟨fun hnil => hblank (trimLeft_eq_nil_iff.mp hnil), ?_⟩
        intro c hc
        exact hline c ((List.dropWhile_suffix isSpace).subset hc)
      simp only [comparisonBy?, after?_eq_some_iff.mpr rfl, Option.bind_eq_bind, Option.bind_some,
        trimLeft_space_append hSpace, hrest, trim_trimLeft, trim_space_append hSpace, if_true]

theorem any?_eq_some_iff : any? text = some cell ↔ Fits .any text cell := by
  constructor
  · intro h
    unfold any? at h
    split_ifs at h with hdash
    cases h
    rw [hdash]
    exact .any
  · intro h
    cases h
    rfl

def Pattern.read? (text : List Char) : Pattern → Option (Operator × Operand)
  | notIn => notInList? text
  | isIn => inList? text
  | range => range? text
  | comparison symbol operator => comparisonBy? symbol operator text
  | any => any? text

theorem Pattern.read?_eq_some_iff (hEnd : EndsOutsideSpace text) (pattern : Pattern) :
    pattern.read? text = some cell ↔ Fits pattern text cell := by
  cases pattern with
  | notIn => exact notInList?_eq_some_iff
  | isIn => exact inList?_eq_some_iff
  | range => exact range?_eq_some_iff
  | comparison symbol operator => exact comparisonBy?_eq_some_iff hEnd
  | any => exact any?_eq_some_iff

theorem Pattern.read?_eq_none_iff (hEnd : EndsOutsideSpace text) (pattern : Pattern) :
    pattern.read? text = none ↔ ∀ cell, ¬ Fits pattern text cell := by
  rw [Option.eq_none_iff_forall_ne_some]
  simp only [ne_eq, pattern.read?_eq_some_iff hEnd]

theorem findSome?_cons_eq_or {α β : Type} (f : α → Option β) (a : α) (rest : List α) :
    (a :: rest).findSome? f = (f a).or (rest.findSome? f) := by
  rw [List.findSome?_cons]
  cases f a <;> rfl

theorem pattern?_eq_findSome? (text : List Char) :
    pattern? text = patterns.findSome? (Pattern.read? text) := by
  have hcomparison : comparison? text =
      comparisons.findSome? fun e => comparisonBy? e.1 e.2 text := rfl
  simp only [pattern?, patterns, hcomparison, comparisons, findSome?_cons_eq_or, Pattern.read?,
    List.findSome?_nil, Option.or_none, Option.or_assoc]

theorem Fits.unique {pattern : Pattern} {cell' : Operator × Operand} (hEnd : EndsOutsideSpace text)
    (h : Fits pattern text cell) (h' : Fits pattern text cell') : cell = cell' := by
  have hread := (pattern.read?_eq_some_iff hEnd).mpr h
  rw [(pattern.read?_eq_some_iff hEnd).mpr h'] at hread
  exact (Option.some.inj hread).symm

theorem asks_getD (hEnd : EndsOutsideSpace text) :
    Asks text ((pattern? text).getD (.eq, .scalar (scalar text))) := by
  rw [pattern?_eq_findSome?]
  cases hfind : patterns.findSome? (Pattern.read? text) with
  | none =>
    refine .scalar fun pattern hpattern => ?_
    exact (pattern.read?_eq_none_iff hEnd).mp (List.findSome?_eq_none_iff.mp hfind pattern hpattern)
  | some cell =>
    obtain ⟨earlier, pattern, later, hpatterns, hread, hearlier⟩ :=
      List.findSome?_eq_some_iff.mp hfind
    refine .pattern hpatterns (fun other hother => ?_) ((pattern.read?_eq_some_iff hEnd).mp hread)
    exact (other.read?_eq_none_iff hEnd).mp (hearlier other hother)

theorem getD_of_asks (hEnd : EndsOutsideSpace text) (h : Asks text cell) :
    (pattern? text).getD (.eq, .scalar (scalar text)) = cell := by
  rw [pattern?_eq_findSome?]
  cases h with
  | @pattern earlier later pattern _ hPatterns hEarlier h =>
    have hfind : patterns.findSome? (Pattern.read? text) = some cell := by
      refine List.findSome?_eq_some_iff.mpr ⟨earlier, pattern, later, hPatterns, ?_, ?_⟩
      · exact (pattern.read?_eq_some_iff hEnd).mpr h
      · exact fun other hother => (other.read?_eq_none_iff hEnd).mpr (hEarlier other hother)
    rw [hfind]
    rfl
  | scalar hNone =>
    have hfind : patterns.findSome? (Pattern.read? text) = none := by
      refine List.findSome?_eq_none_iff.mpr fun pattern hpattern => ?_
      exact (pattern.read?_eq_none_iff hEnd).mpr (hNone pattern hpattern)
    rw [hfind]
    rfl

theorem read_of_asks (h : Asks (trim text) cell) : read text = cell :=
  getD_of_asks (endsOutsideSpace_trim text) h

/-- A cell is read as what its trimmed text asks for. The parts into which a text fits a pattern
make no difference to what it asks for by that pattern. -/
theorem read_eq_iff (text : List Char) :
    (∀ cell, read text = cell ↔ Asks (trim text) cell) ∧
      ∀ pattern cell cell', Fits pattern (trim text) cell → Fits pattern (trim text) cell' →
        cell = cell' := by
  have hEnd := endsOutsideSpace_trim text
  refine ⟨fun cell => ⟨?_, read_of_asks⟩, fun _ _ _ h h' => h.unique hEnd h'⟩
  rintro rfl
  exact asks_getD hEnd

end DecisionTables.Cell
