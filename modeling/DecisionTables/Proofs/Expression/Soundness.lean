import DecisionTables.Proofs.Expression.Grammar
import DecisionTables.Proofs.Text.Runs

/-!
# What is read is derived

Whatever the reader takes from the start of a text is a phrase of the grammar, and the expression
that it returns is the one that the phrase writes.
-/
namespace DecisionTables.Expression
open Text

theorem untilQuote?_sound {quote : Char} {text body rest : List Char}
    (h : untilQuote? quote text = some (body, rest)) :
    text = body ++ quote :: rest ∧ quote ∉ body := by
  unfold untilQuote? at h
  split at h
  case h_1 => cases h
  case h_2 c after hdrop =>
    cases h
    have hc : c = quote := by
      have hstop := startsOutside_dropWhile (fun c => decide (c ≠ quote)) text
      rw [hdrop] at hstop
      simpa using hstop c rfl
    subst hc
    refine ⟨?_, fun hmem => ?_⟩
    · rw [← hdrop, List.takeWhile_append_dropWhile]
    · simpa using List.mem_takeWhile_imp hmem

theorem ofList_eq_iff {text : List Char} {s : String} :
    String.ofList text = s ↔ text = s.toList := by
  rw [← String.toList_inj, String.toList_ofList]

theorem atom_ofName {name : List Char} (h : IsName name) : Atom name (ofName name) := by
  unfold ofName
  simp only [ofList_eq_iff]
  split
  case isTrue htrue =>
    subst htrue
    exact .yes
  case isFalse htrue =>
    split
    case isTrue hfalse =>
      subst hfalse
      exact .no
    case isFalse hfalse =>
      split
      case isTrue hnull =>
        subst hnull
        exact .null
      case isFalse hnull =>
        refine .fact h ?_
        simpa [constants] using And.intro htrue ⟨hfalse, hnull⟩

theorem isNamePart_of_isNameStart {c : Char} (h : isNameStart c = true) : isNamePart c = true := by
  simp only [isNameStart, isNamePart, Char.isAlphanum, Bool.or_eq_true] at h ⊢
  tauto

theorem isName_takeWhile {c : Char} {text : List Char} (h : isNameStart c = true) :
    IsName ((c :: text).takeWhile isNamePart) := by
  rw [List.takeWhile_cons_of_pos (isNamePart_of_isNameStart h)]
  exact ⟨c, _, rfl, h, fun d hd => List.mem_takeWhile_imp hd⟩

theorem atom?_sound {text rest : List Char} {e : Expression} (h : atom? text = some (e, rest)) :
    ∃ body, text = body ++ rest ∧ Atom body e := by
  unfold atom? at h
  split at h
  case h_1 d after hspan =>
    cases h
    obtain ⟨numeral, rfl, hnumeral⟩ := spanNumeral_sound hspan
    exact ⟨numeral, rfl, .number hnumeral⟩
  case h_2 =>
    split at h
    case h_1 => cases h
    case h_2 c after hnumeral =>
      split at h
      case isTrue hquote =>
        obtain ⟨⟨body, rest'⟩, huntil, heq⟩ := Option.map_eq_some_iff.mp h
        cases heq
        obtain ⟨rfl, hbody⟩ := untilQuote?_sound huntil
        exact ⟨c :: (body ++ [c]), by simp, .string hquote hbody⟩
      case isFalse =>
        split at h
        case isTrue hstart =>
          cases h
          exact ⟨_, List.takeWhile_append_dropWhile.symm, atom_ofName (isName_takeWhile hstart)⟩
        case isFalse => cases h

theorem operator?_sound {rank : Rank} {text rest : List Char} {op : BinaryOp}
    (h : operator? rank.level text = some (op, rest)) :
    ∃ space symbol, text = space ++ (symbol ++ rest) ∧ isBlank space = true ∧
      Joins rank symbol op := by
  obtain ⟨⟨symbol, op'⟩, hmem, hafter⟩ := List.exists_of_findSome?_eq_some h
  obtain ⟨rest', hrest, heq⟩ := Option.map_eq_some_iff.mp hafter
  cases heq
  have htrim : trimLeft text = symbol ++ rest := after?_eq_some_iff.mp hrest
  refine ⟨text.takeWhile isSpace, symbol, ?_, isBlank_takeWhile text, mem_level_iff.mp hmem⟩
  rw [← htrim]
  exact (takeWhile_append_trimLeft text).symm

def Sound (phrase : Phrase) (reader : Reader) : Prop :=
  ∀ text e rest, reader text = .ok (e, rest) → ∃ body, text = body ++ rest ∧ Derives phrase body e

/-- The loop over the operators of a rank adds what it reads to the phrase on its left. -/
theorem chainFrom_sound {rank : Rank} {reader : Reader} (hreader : Sound rank.operand reader)
    {fuel : ℕ} {left text rest : List Char} {l e : Expression} (hl : Derives (.joined rank) left l)
    (h : chainFrom rank.level reader fuel l text = .ok (e, rest)) :
    ∃ body, text = body ++ rest ∧ Derives (.joined rank) (left ++ body) e := by
  -- `left` grows by an operand at each turn, so that `e` nests to the left.
  induction fuel generalizing left text l with
  | zero =>
    cases h
    exact ⟨[], rfl, by rwa [List.append_nil]⟩
  | succ fuel ih =>
    unfold chainFrom at h
    split at h
    case h_1 =>
      cases h
      exact ⟨[], rfl, by rwa [List.append_nil]⟩
    case h_2 op after hop =>
      obtain ⟨space, symbol, rfl, hspace, hsymbol⟩ := operator?_sound hop
      obtain ⟨⟨r, after'⟩, hr, hloop⟩ := exists_of_bind_eq_ok h
      obtain ⟨right, rfl, hright⟩ := hreader _ _ _ hr
      obtain ⟨body, rfl, hbody⟩ := ih (.join hl hspace hsymbol hright) hloop
      exact ⟨space ++ (symbol ++ (right ++ body)), by simp, by simpa using hbody⟩

theorem chain_sound (rank : Rank) {reader : Reader} (hreader : Sound rank.operand reader) :
    Sound (.joined rank) (chain rank.level reader) := by
  intro text e rest h
  obtain ⟨⟨l, after⟩, hl, hloop⟩ := exists_of_bind_eq_ok h
  obtain ⟨left, rfl, hleft⟩ := hreader _ _ _ hl
  obtain ⟨body, rfl, hbody⟩ := chainFrom_sound hreader (.operand hleft) hloop
  exact ⟨left ++ body, by simp, hbody⟩

/-- Each rank is sound because the rank below it is. -/
theorem joined_sound {reader : Reader} (hreader : Sound .unary reader) :
    Sound (.joined .disjunction) (joined reader levels) := by
  have hproduct := chain_sound .product hreader
  have hsum := chain_sound .sum hproduct
  have hcomparison := chain_sound .comparison hsum
  have hequality := chain_sound .equality hcomparison
  have hconjunction := chain_sound .conjunction hequality
  exact chain_sound .disjunction hconjunction

theorem parenthesized_sound {inner : Reader} (hinner : Sound (.joined .disjunction) inner)
    {text rest : List Char} {e : Expression} (h : parenthesized inner text = .ok (e, rest)) :
    ∃ body space, text = body ++ (space ++ ')' :: rest) ∧ isBlank space = true ∧
      Derives (.joined .disjunction) body e := by
  unfold parenthesized at h
  split at h
  case h_1 => cases h
  case h_2 e' after hread =>
    obtain ⟨body, rfl, hbody⟩ := hinner _ _ _ hread
    split at h
    case h_1 rest' htrim =>
      cases h
      refine ⟨body, after.takeWhile isSpace, ?_, isBlank_takeWhile after, hbody⟩
      rw [← htrim, takeWhile_append_trimLeft]
    case h_2 => cases h

/-- A sign or a negation and the phrase that follows it are what an operand is read from. -/
theorem map_unary_sound {reader : Reader} (hreader : Sound .unary reader) {op : UnaryOp}
    {text rest : List Char} {e : Expression}
    (h : ((reader text).map fun (e, rest) => (.unary op e, rest)) = .ok (e, rest)) :
    ∃ body inner, text = body ++ rest ∧ Derives .unary body inner ∧ e = .unary op inner := by
  obtain ⟨⟨inner, rest'⟩, hread, heq⟩ := exists_of_map_eq_ok h
  cases heq
  obtain ⟨body, rfl, hbody⟩ := hreader _ _ _ hread
  exact ⟨body, inner, rfl, hbody, rfl⟩

theorem operand_sound (fuel : ℕ) : Sound .unary (operand fuel) := by
  induction fuel with
  | zero => intro text e rest h; cases h
  | succ fuel ih =>
    intro text e rest h
    have hspace := isBlank_takeWhile text
    have htext := takeWhile_append_trimLeft text
    generalize text.takeWhile isSpace = space at hspace htext
    unfold operand at h
    split at h
    case h_1 after htrim =>
      obtain ⟨body, inner, rfl, hbody, rfl⟩ := map_unary_sound ih h
      rw [htrim] at htext
      exact ⟨space ++ '!' :: body, by simp [← htext], .not hspace hbody⟩
    case h_2 after htrim =>
      obtain ⟨body, inner, rfl, hbody, rfl⟩ := map_unary_sound ih h
      rw [htrim] at htext
      exact ⟨space ++ '-' :: body, by simp [← htext], .negate hspace hbody⟩
    case h_3 after htrim =>
      obtain ⟨body, space', rfl, hspace', hbody⟩ := parenthesized_sound (joined_sound ih) h
      rw [htrim] at htext
      exact ⟨space ++ '(' :: (body ++ (space' ++ [')'])), by simp [← htext],
        .primary (.parentheses hspace hbody hspace')⟩
    case h_4 =>
      split at h
      case h_1 hatom =>
        cases h
        obtain ⟨body, hbody, hderives⟩ := atom?_sound hatom
        rw [hbody] at htext
        exact ⟨space ++ body, by simp [← htext], .primary (.atom hspace hderives)⟩
      case h_2 => cases h

end DecisionTables.Expression
