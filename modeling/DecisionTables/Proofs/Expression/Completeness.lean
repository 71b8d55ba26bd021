import DecisionTables.Proofs.Expression.Soundness

/-!
# What is derived is read

The reader never gives back what it has read, takes the first operator that fits and the longest
name or numeral, and gives up once an operand is missing. None of this loses a derivation: what a
text derives is what is read from it. Main statement: a text is read as an expression exactly when
the grammar derives it, so no text derives two expressions.
-/
namespace DecisionTables.Expression
open Text

theorem isNamePart_of_isNumeralPart {c : Char} (h : isNumeralPart c = true) :
    isNamePart c = true := by
  simp only [isNumeralPart, isNamePart, Char.isAlphanum, Bool.or_eq_true] at h ⊢
  tauto

theorem isNamePart_of_isSpace {c : Char} (h : isSpace c = true) : isNamePart c = false :=
  eq_false_of_isSpace (by decide) h

theorem isDigit_eq_false_of_isNameStart {c : Char} (h : isNameStart c = true) :
    c.isDigit = false := by
  simp only [isNameStart, Bool.or_eq_true, decide_eq_true_eq] at h
  rcases h with (hletter | rfl) | rfl
  · simp only [Char.isAlpha, Char.isUpper, Char.isLower, Char.isDigit, Bool.or_eq_true,
      Bool.and_eq_true, decide_eq_true_eq] at hletter ⊢
    grind
  · rfl
  · rfl

theorem untilQuote?_append {quote : Char} {body : List Char} (h : quote ∉ body) (rest : List Char) :
    untilQuote? quote (body ++ quote :: rest) = some (body, rest) := by
  have hrun : ∀ c ∈ body, decide (c ≠ quote) = true := by
    intro c hc
    simpa using fun heq : c = quote => h (heq ▸ hc)
  have hstop : StartsOutside (fun c => decide (c ≠ quote)) (quote :: rest) := by
    simp [StartsOutside]
  unfold untilQuote?
  rw [dropWhile_run hrun hstop, takeWhile_run hrun hstop]

def isAtomStart (c : Char) : Bool := c.isDigit || c = '"' || c = '\'' || isNameStart c

theorem Atom.exists_head {text : List Char} {e : Expression} (h : Atom text e) :
    ∃ c rest, text = c :: rest ∧ isAtomStart c = true := by
  cases h with
  | number hNumeral =>
    obtain ⟨c, rest, rfl, hc⟩ := hNumeral.exists_head
    exact ⟨c, rest, rfl, by simp [isAtomStart, hc]⟩
  | string hQuote hBody =>
    refine ⟨_, _, rfl, ?_⟩
    rcases hQuote with rfl | rfl <;> rfl
  | yes => exact ⟨_, _, rfl, rfl⟩
  | no => exact ⟨_, _, rfl, rfl⟩
  | null => exact ⟨_, _, rfl, rfl⟩
  | fact hName hOther =>
    obtain ⟨c, rest, rfl, hc, -⟩ := hName
    exact ⟨c, rest, rfl, by simp [isAtomStart, hc]⟩

theorem isSpace_eq_false_of_isAtomStart {c : Char} (h : isAtomStart c = true) :
    isSpace c = false := by
  by_contra hspace
  have hstart : isAtomStart c = false := eq_false_of_isSpace (by decide) (by simpa using hspace)
  rw [hstart] at h
  cases h

theorem ofName_true : ofName ['t', 'r', 'u', 'e'] = .literal (.bool true) := rfl

theorem ofName_false : ofName ['f', 'a', 'l', 's', 'e'] = .literal (.bool false) := rfl

theorem ofName_null : ofName ['n', 'u', 'l', 'l'] = .literal .null := rfl

theorem ofName_of_notMem {name : List Char} (h : name ∉ constants) :
    ofName name = .fact (String.ofList name) := by
  simp only [constants, List.mem_cons, List.not_mem_nil, or_false, not_or] at h
  simp only [ofName, ofList_eq_iff]
  simp [h]

theorem isName_of_all {c : Char} {rest : List Char} (hc : isNameStart c = true)
    (hrest : rest.all isNamePart = true) : IsName (c :: rest) :=
  ⟨c, rest, rfl, hc, List.all_eq_true.mp hrest⟩

theorem atom?_name {name rest : List Char} (h : IsName name) (hr : StartsOutside isNamePart rest) :
    atom? (name ++ rest) = some (ofName name, rest) := by
  obtain ⟨c, cs, rfl, hc, hcs⟩ := h
  have hdigit : StartsOutside Char.isDigit (c :: cs ++ rest) :=
    startsOutside_cons (isDigit_eq_false_of_isNameStart hc)
  have hrun : ∀ d ∈ c :: cs, isNamePart d = true :=
    List.forall_mem_cons.mpr ⟨isNamePart_of_isNameStart hc, hcs⟩
  have hquote : ¬(c = '"' ∨ c = '\'') := by
    rintro (rfl | rfl) <;> exact absurd hc (by decide)
  unfold atom?
  rw [spanNumeral_eq_none hdigit]
  simp only [List.cons_append, hquote, hc, if_true, if_false]
  rw [← List.cons_append, takeWhile_run hrun hr, dropWhile_run hrun hr]

/-- An atom is taken as a whole where nothing goes on with it. -/
theorem atom?_append {text rest : List Char} {e : Expression} (h : Atom text e)
    (hr : StartsOutside isNamePart rest) : atom? (text ++ rest) = some (e, rest) := by
  cases h with
  | number hNumeral =>
    have hstop : StartsOutside isNumeralPart rest := hr.mono fun _ => isNamePart_of_isNumeralPart
    simp only [atom?, spanNumeral_append hNumeral hstop]
  | @string quote body hQuote hBody =>
    have hdigit : StartsOutside Char.isDigit (quote :: (body ++ [quote]) ++ rest) := by
      rcases hQuote with rfl | rfl <;> exact startsOutside_cons rfl
    unfold atom?
    rw [spanNumeral_eq_none hdigit]
    simp [hQuote, untilQuote?_append hBody]
  | yes => rw [atom?_name (isName_of_all rfl rfl) hr, ofName_true]
  | no => rw [atom?_name (isName_of_all rfl rfl) hr, ofName_false]
  | null => rw [atom?_name (isName_of_all rfl rfl) hr, ofName_null]
  | fact hName hOther => rw [atom?_name hName hr, ofName_of_notMem hOther]

/-- A phrase starts with white space, a sign, a parenthesis or an atom, but never with `=`. -/
theorem Derives.exists_head {phrase : Phrase} {text : List Char} {e : Expression}
    (h : Derives phrase text e) : ∃ c rest, text = c :: rest ∧ c ≠ '=' := by
  have hspaced : ∀ {space rest : List Char} {c : Char}, isBlank space = true → c ≠ '=' →
      ∃ d rest', space ++ c :: rest = d :: rest' ∧ d ≠ '=' := by
    intro space rest c hspace hc
    cases space with
    | nil => exact ⟨c, rest, rfl, hc⟩
    | cons d space =>
      refine ⟨d, _, rfl, ?_⟩
      rintro rfl
      simp [isBlank, isSpace, spaceCodes] at hspace
  induction h with
  | operand h ih => exact ih
  | join _ _ _ _ ih =>
    obtain ⟨c, rest, rfl, hc⟩ := ih
    exact ⟨c, _, rfl, hc⟩
  | not hSpace => exact hspaced hSpace (by decide)
  | negate hSpace => exact hspaced hSpace (by decide)
  | primary h ih => exact ih
  | parentheses hSpace => exact hspaced hSpace (by decide)
  | atom hSpace h =>
    obtain ⟨c, rest, rfl, hc⟩ := h.exists_head
    exact hspaced hSpace fun heq => absurd (heq ▸ hc) (by decide)

/-- Nothing at the start of the text goes on with a phrase that has just been read. -/
structure Ends (phrase : Phrase) (rest : List Char) : Prop where
  boundary : StartsOutside isNamePart rest
  operators : ∀ level ∈ phrase.levels, operator? level rest = none

theorem after?_eq_none {symbol text : List Char} (hne : symbol ≠ [])
    (h : symbol.head? ≠ text.head?) : after? symbol text = none := by
  obtain ⟨c, symbol, rfl⟩ := List.exists_cons_of_ne_nil hne
  cases text with
  | nil => rfl
  | cons d text => simp_all [after?]

theorem symbol_ne_nil : ∀ level ∈ levels, ∀ entry ∈ level, entry.1 ≠ [] := by decide

/-- After white space, only the first character needs a look to see that no operator follows. -/
theorem ends_of_head {phrase : Phrase} {space rest : List Char} (hspace : isBlank space = true)
    (hblank : StartsOutside isSpace rest) (hname : StartsOutside isNamePart rest)
    (hhead : ∀ level ∈ phrase.levels, ∀ entry ∈ level, entry.1.head? ≠ rest.head?) :
    Ends phrase (space ++ rest) := by
  refine ⟨hname.space_append hspace fun _ => isNamePart_of_isSpace, fun level hlevel => ?_⟩
  unfold operator?
  rw [trimLeft_run hspace hblank, List.findSome?_eq_none_iff]
  rintro ⟨symbol, op⟩ hentry
  have hne := symbol_ne_nil level (phrase.levels_subset hlevel) _ hentry
  simp only [after?_eq_none hne (hhead level hlevel _ hentry), Option.map_none]

/-- No operator that binds more starts like the one between two operands. -/
theorem ends_join {rank : Rank} {space symbol : List Char} {op : BinaryOp}
    (hspace : isBlank space = true) (hsymbol : Joins rank symbol op) (rest : List Char) :
    Ends rank.operand (space ++ (symbol ++ rest)) := by
  refine ends_of_head hspace ?_ ?_ ?_
  · cases hsymbol <;> exact startsOutside_cons rfl
  · cases hsymbol <;> exact startsOutside_cons rfl
  · cases hsymbol <;> simp only [List.cons_append, List.head?_cons] <;> decide

theorem ends_parenthesis (phrase : Phrase) {space : List Char} (hspace : isBlank space = true)
    (rest : List Char) : Ends phrase (space ++ ')' :: rest) := by
  have hhead : ∀ level ∈ levels, ∀ entry ∈ level, entry.1.head? ≠ some ')' := by decide
  exact ends_of_head hspace (startsOutside_cons rfl) (startsOutside_cons rfl)
    fun level hlevel => hhead level (phrase.levels_subset hlevel)

theorem ends_blank (phrase : Phrase) {space : List Char} (hspace : isBlank space = true) :
    Ends phrase space := by
  have hhead : ∀ level ∈ levels, ∀ entry ∈ level, entry.1.head? ≠ none := by decide
  rw [← List.append_nil space]
  exact ends_of_head hspace startsOutside_nil startsOutside_nil
    fun level hlevel => hhead level (phrase.levels_subset hlevel)

/-- The operator between two operands is found, a longer symbol before a shorter one. -/
theorem operator?_join {rank : Rank} {space symbol right rest : List Char} {op : BinaryOp}
    {r : Expression} (hspace : isBlank space = true) (hsymbol : Joins rank symbol op)
    (hright : Derives rank.operand right r) :
    operator? rank.level (space ++ (symbol ++ (right ++ rest))) = some (op, right ++ rest) := by
  obtain ⟨c, cs, rfl, hc⟩ := hright.exists_head
  have hstart : StartsOutside isSpace (symbol ++ (c :: cs ++ rest)) := by
    cases hsymbol <;> exact startsOutside_cons rfl
  unfold operator?
  rw [trimLeft_run hspace hstart]
  cases hsymbol <;> simp [Rank.level, Rank.index, levels, after?, Ne.symm hc]

theorem symbol_length_pos {rank : Rank} {symbol : List Char} {op : BinaryOp}
    (h : Joins rank symbol op) : 0 < symbol.length := by
  cases h <;> decide

theorem chain_of_ok {level : Level} {reader : Reader} {text rest : List Char} {e : Expression}
    (h : reader text = .ok (e, rest)) :
    chain level reader text = chainFrom level reader rest.length e rest := by
  simp only [chain, h]
  rfl

theorem chainFrom_of_none {level : Level} {text : List Char} (h : operator? level text = none)
    (reader : Reader) (count : ℕ) (e : Expression) :
    chainFrom level reader count e text = .ok (e, text) := by
  cases count with
  | zero => rfl
  | succ count => simp only [chainFrom, h]

theorem chainFrom_of_some {level : Level} {reader : Reader} {text after rest : List Char}
    {op : BinaryOp} {r : Expression} (hop : operator? level text = some (op, after))
    (hr : reader after = .ok (r, rest)) (count : ℕ) (l : Expression) :
    chainFrom level reader (count + 1) l text =
      chainFrom level reader count (.binary op l r) rest := by
  simp only [chainFrom, hop, hr]
  rfl

theorem operand_not {fuel : ℕ} {text after rest : List Char} {e : Expression}
    (htrim : trimLeft text = '!' :: after) (h : operand fuel after = .ok (e, rest)) :
    operand (fuel + 1) text = .ok (.unary .not e, rest) := by
  simp only [operand, htrim, h]
  rfl

theorem operand_negate {fuel : ℕ} {text after rest : List Char} {e : Expression}
    (htrim : trimLeft text = '-' :: after) (h : operand fuel after = .ok (e, rest)) :
    operand (fuel + 1) text = .ok (.unary .negate e, rest) := by
  simp only [operand, htrim, h]
  rfl

theorem operand_parentheses {fuel : ℕ} {text inner after rest : List Char} {e : Expression}
    (htrim : trimLeft text = '(' :: inner)
    (h : joined (operand fuel) levels inner = .ok (e, after))
    (hafter : trimLeft after = ')' :: rest) : operand (fuel + 1) text = .ok (e, rest) := by
  simp only [operand, htrim, parenthesized, h, hafter]

theorem operand_atom {fuel : ℕ} {text after rest : List Char} {c : Char} {e : Expression}
    (htrim : trimLeft text = c :: after) (hc : isAtomStart c = true)
    (h : atom? (c :: after) = some (e, rest)) : operand (fuel + 1) text = .ok (e, rest) := by
  unfold operand
  rw [htrim]
  split
  case h_1 heq => cases heq; cases hc
  case h_2 heq => cases heq; cases hc
  case h_3 heq => cases heq; cases hc
  case h_4 => rw [h]

/-- Reading a text that starts with a phrase comes to the end of the phrase, with its expression:
for operands that operators join, to the loop over these operators, which may go on. -/
def Reaches (phrase : Phrase) (body : List Char) (e : Expression) : Prop :=
  ∀ fuel rest, (body ++ rest).length < fuel →
    match phrase with
    | .joined rank => Ends rank.operand rest → ∃ count, rest.length ≤ count ∧
        chain rank.level (joined (operand fuel) rank.operand.levels) (body ++ rest) =
          chainFrom rank.level (joined (operand fuel) rank.operand.levels) count e rest
    | .unary => Ends .unary rest → operand fuel (body ++ rest) = .ok (e, rest)
    | .primary => Ends .primary rest → operand fuel (body ++ rest) = .ok (e, rest)

theorem Ends.operand {rank : Rank} {rest : List Char} (h : Ends (.joined rank) rest) :
    Ends rank.operand rest :=
  ⟨h.boundary, fun level hlevel => h.operators level (by simp [levels_joined, hlevel])⟩

/-- Where no operator follows, the phrase is all that is read. -/
theorem Reaches.reads {phrase : Phrase} {body rest : List Char} {e : Expression} {fuel : ℕ}
    (h : Reaches phrase body e) (hfuel : (body ++ rest).length < fuel) (hends : Ends phrase rest) :
    joined (Expression.operand fuel) phrase.levels (body ++ rest) = .ok (e, rest) := by
  cases phrase with
  | joined rank =>
    obtain ⟨count, -, hchain⟩ := h fuel rest hfuel hends.operand
    have hnone := hends.operators rank.level (by simp [levels_joined])
    rw [levels_joined, joined, hchain, chainFrom_of_none hnone]
  | unary => exact h fuel rest hfuel hends
  | primary => exact h fuel rest hfuel hends

theorem Derives.reaches {phrase : Phrase} {body : List Char} {e : Expression}
    (h : Derives phrase body e) : Reaches phrase body e := by
  induction h with
  | operand h ih =>
    intro fuel rest hfuel hends
    exact ⟨rest.length, le_rfl, chain_of_ok (ih.reads hfuel hends)⟩
  | @join rank left space symbol right op l r hLeft hSpace hSymbol hRight ihLeft ihRight =>
    intro fuel rest hfuel hends
    have hpos := symbol_length_pos hSymbol
    simp only [List.append_assoc] at hfuel ⊢
    -- The loop at the end of `left` has turns to spare, since each takes at least a symbol.
    obtain ⟨count, hcount, hchain⟩ := ihLeft fuel _ hfuel (ends_join hSpace hSymbol (right ++ rest))
    simp only [List.length_append] at hfuel hcount
    obtain ⟨count, rfl⟩ := Nat.exists_eq_add_of_lt (show 0 < count by omega)
    rw [Nat.zero_add] at hcount hchain
    have hright := ihRight.reads (show (right ++ rest).length < fuel by simp; omega) hends
    refine ⟨count, by omega, ?_⟩
    rw [hchain, chainFrom_of_some (operator?_join hSpace hSymbol hRight) hright]
  | @not space inner e hSpace h ih =>
    intro fuel rest hfuel hends
    obtain ⟨fuel, rfl⟩ := Nat.exists_eq_add_of_lt hfuel
    have htrim := @trimLeft_token _ inner '!' hSpace rfl rest
    exact operand_not htrim (ih _ rest (by simp; omega) hends)
  | @negate space inner e hSpace h ih =>
    intro fuel rest hfuel hends
    obtain ⟨fuel, rfl⟩ := Nat.exists_eq_add_of_lt hfuel
    have htrim := @trimLeft_token _ inner '-' hSpace rfl rest
    exact operand_negate htrim (ih _ rest (by simp; omega) hends)
  | primary h ih =>
    intro fuel rest hfuel hends
    exact ih fuel rest hfuel ⟨hends.boundary, hends.operators⟩
  | @parentheses space inner space' e hSpace h hSpace' ih =>
    intro fuel rest hfuel hends
    obtain ⟨fuel, rfl⟩ := Nat.exists_eq_add_of_lt hfuel
    have htrim : trimLeft (space ++ '(' :: (inner ++ (space' ++ [')'])) ++ rest) =
        '(' :: (inner ++ (space' ++ ')' :: rest)) := by
      rw [trimLeft_token hSpace rfl]
      simp
    have hclose : trimLeft (space' ++ ')' :: rest) = ')' :: rest :=
      trimLeft_run hSpace' (startsOutside_cons rfl)
    have hshort : (inner ++ (space' ++ ')' :: rest)).length <
        (space ++ '(' :: (inner ++ (space' ++ [')'])) ++ rest).length + fuel := by
      simp only [List.length_append, List.length_cons, List.length_nil]
      omega
    have hinner := ih.reads hshort (ends_parenthesis _ hSpace' rest)
    exact operand_parentheses htrim hinner hclose
  | @atom space text e hSpace h =>
    intro fuel rest hfuel hends
    obtain ⟨fuel, rfl⟩ := Nat.exists_eq_add_of_lt hfuel
    have hatom := atom?_append h hends.boundary
    obtain ⟨c, cs, rfl, hc⟩ := h.exists_head
    have htrim := @trimLeft_token _ cs c hSpace (isSpace_eq_false_of_isAtomStart hc) rest
    exact operand_atom htrim hc hatom

theorem ofText_eq_ok_of_writes {source : String} {e : Expression} (h : Writes source.toList e) :
    ofText source = .ok e := by
  obtain ⟨body, space, hsource, hbody, hspace⟩ := h
  have hread : readPart (body ++ space) = .ok (e, space) :=
    hbody.reaches.reads (Nat.lt_succ_self _) (ends_blank _ hspace)
  simp only [ofText, hsource, hread, trimLeft_eq_nil_iff.mpr hspace]

theorem writes_of_ofText_eq_ok {source : String} {e : Expression} (h : ofText source = .ok e) :
    Writes source.toList e := by
  unfold ofText at h
  dsimp only at h
  split at h
  case h_1 => cases h
  case h_2 e' rest hread =>
    split at h
    case h_1 hrest =>
      cases h
      obtain ⟨body, hsource, hbody⟩ := joined_sound (operand_sound _) _ _ _ hread
      exact ⟨body, rest, hsource, hbody, trimLeft_eq_nil_iff.mp hrest⟩
    case h_2 => cases h

/-- A text is read as an expression exactly when the grammar derives the expression from it; no
text derives two. -/
theorem ofText_eq_ok_iff :
    (∀ (source : String) (e : Expression), ofText source = .ok e ↔ Writes source.toList e) ∧
      ∀ (text : List Char) (e e' : Expression), Writes text e → Writes text e' → e = e' := by
  refine ⟨fun source e => ⟨writes_of_ofText_eq_ok, ofText_eq_ok_of_writes⟩, ?_⟩
  intro text e e' h h'
  rw [← String.toList_ofList (l := text)] at h h'
  exact Except.ok.inj ((ofText_eq_ok_of_writes h).symm.trans (ofText_eq_ok_of_writes h'))

end DecisionTables.Expression
