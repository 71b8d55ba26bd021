import DecisionTables.Proofs.Expression.Completeness

/-!
# Places of errors

Reading stops at the first token that no expression can go on with. What stands before it is
complete, or becomes so by an operand and the parentheses that are still open, or by these
parentheses alone. Main statement: every error is reported at such a place, on a character that is
not white space or at the end of the text, and its message says which of the three it is.
-/
namespace DecisionTables.Expression
open Text

/-- What is missing where a text goes on with `rest`, if `mentions` operands are mentioned: an
operand, of which there is none at the start of `rest`, or a closing parenthesis. -/
inductive Missing (rest : List Char) : (mentions : ℕ) → (completion : List Char) → Prop
  | operand (opened : ℕ) (h : ∀ body after e, rest = body ++ after → ¬ Derives .unary body e) :
      Missing rest (opened + 1) ('0' :: List.replicate opened ')')
  | parenthesis (opened : ℕ) (h : rest.head? ≠ some ')') :
      Missing rest (opened + 1) (List.replicate (opened + 1) ')')

variable {rest : List Char} {mentions : ℕ} {completion : List Char}

theorem Missing.one_le (h : Missing rest mentions completion) : 1 ≤ mentions := by
  cases h <;> exact Nat.le_add_left 1 _

/-- One more parenthesis around what is missing is mentioned, and closed at the end. -/
theorem Missing.opened (h : Missing rest mentions completion) :
    Missing rest (mentions + 1) (completion ++ [')']) := by
  cases h with
  | operand opened h =>
    rw [List.cons_append, ← List.replicate_succ']
    exact .operand (opened + 1) h
  | parenthesis opened h =>
    rw [← List.replicate_succ']
    exact .parenthesis (opened + 1) h

theorem spanNumeral_of_isDigit {c : Char} (hc : c.isDigit = true) (text : List Char) :
    ∃ result, spanNumeral (c :: text) = some result := by
  have hdigits : (spanDigits (c :: text)).1 ≠ [] := by simp [spanDigits_eq, hc]
  unfold spanNumeral
  split
  case h_1 heq => exact absurd (congrArg Prod.fst heq) hdigits
  case h_2 => split <;> exact ⟨_, rfl⟩
  case h_3 => exact ⟨_, rfl⟩

theorem atom?_of_isNameStart {c : Char} (hc : isNameStart c = true) (text : List Char) :
    ∃ result, atom? (c :: text) = some result := by
  have hquote : ¬(c = '"' ∨ c = '\'') := by
    rintro (rfl | rfl) <;> exact absurd hc (by decide)
  have hdigit : StartsOutside Char.isDigit (c :: text) :=
    startsOutside_cons (isDigit_eq_false_of_isNameStart hc)
  exact ⟨_, by simp only [atom?, spanNumeral_eq_none hdigit, hquote, hc, if_true, if_false]; rfl⟩

/-- Some atom is taken wherever one stands, though it may be a longer one. -/
theorem Atom.exists_atom? {text : List Char} {e : Expression} (h : Atom text e)
    (after : List Char) : ∃ result, atom? (text ++ after) = some result := by
  cases h with
  | number hNumeral =>
    obtain ⟨c, cs, rfl, hc⟩ := hNumeral.exists_head
    obtain ⟨⟨d, rest⟩, hspan⟩ := spanNumeral_of_isDigit hc (cs ++ after)
    refine ⟨(.literal (.number (d.toNumber false)), rest), ?_⟩
    rw [List.cons_append, atom?, hspan]
  | @string quote body hQuote hBody =>
    have hdigit : StartsOutside Char.isDigit (quote :: (body ++ quote :: after)) := by
      rcases hQuote with rfl | rfl <;> exact startsOutside_cons rfl
    refine ⟨(.literal (.string (String.ofList body)), after), ?_⟩
    simp [atom?, spanNumeral_eq_none hdigit, hQuote, untilQuote?_append hBody]
  | yes => exact atom?_of_isNameStart rfl _
  | no => exact atom?_of_isNameStart rfl _
  | null => exact atom?_of_isNameStart rfl _
  | fact hName =>
    obtain ⟨c, cs, rfl, hc, -⟩ := hName
    exact atom?_of_isNameStart hc _

/-- Before a token there is no white space left to skip. -/
theorem nil_of_isBlank {space text : List Char} (hspace : isBlank space = true)
    (h : StartsOutside isSpace (space ++ text)) : space = [] := by
  cases space with
  | nil => rfl
  | cons c space =>
    have hc : isSpace c = true := isBlank_iff.mp hspace c List.mem_cons_self
    rw [h c rfl] at hc
    cases hc

/-- No operand stands where there is neither a sign, a negation, a parenthesis nor an atom. -/
theorem not_derives_of_atom?_eq_none (hstart : StartsOutside isSpace rest)
    (hnot : ∀ after, rest ≠ '!' :: after) (hminus : ∀ after, rest ≠ '-' :: after)
    (hopen : ∀ after, rest ≠ '(' :: after) (hatom : atom? rest = none) :
    ∀ body after e, rest = body ++ after → ¬ Derives .unary body e := by
  rintro body after e rfl h
  cases h with
  | not hSpace h =>
    rw [List.append_assoc] at hstart
    obtain rfl := nil_of_isBlank hSpace hstart
    exact hnot _ rfl
  | negate hSpace h =>
    rw [List.append_assoc] at hstart
    obtain rfl := nil_of_isBlank hSpace hstart
    exact hminus _ rfl
  | primary h =>
    cases h with
    | parentheses hSpace h hSpace' =>
      rw [List.append_assoc] at hstart
      obtain rfl := nil_of_isBlank hSpace hstart
      exact hopen _ rfl
    | atom hSpace h =>
      rw [List.append_assoc] at hstart
      obtain rfl := nil_of_isBlank hSpace hstart
      obtain ⟨result, hsome⟩ := h.exists_atom? after
      rw [List.nil_append, hsome] at hatom
      cases hatom

def StopsAt (phrase : Phrase) (text : List Char) (stop : Stop) : Prop :=
  StartsOutside isSpace stop.rest ∧ ∃ before completion e, text = before ++ stop.rest ∧
    Missing stop.rest stop.mentions completion ∧ Derives phrase (before ++ completion) e

/-- Wherever the reader stops in a text shorter than `length`, it stops at such a place. -/
def Localises (phrase : Phrase) (length : ℕ) (reader : Reader) : Prop :=
  ∀ text stop, text.length < length → reader text = .error stop → StopsAt phrase text stop

theorem StopsAt.imp {phrase phrase' : Phrase} {text text' : List Char} {stop : Stop}
    (h : StopsAt phrase text stop) (front : List Char) (htext : text' = front ++ text)
    (hphrase : ∀ body e, Derives phrase body e → ∃ e', Derives phrase' (front ++ body) e') :
    StopsAt phrase' text' stop := by
  obtain ⟨hstart, before, completion, e, rfl, hmissing, hderives⟩ := h
  obtain ⟨e', hderives'⟩ := hphrase _ _ hderives
  refine ⟨hstart, front ++ before, completion, e', ?_, hmissing, ?_⟩
  · rw [htext, List.append_assoc]
  · rw [List.append_assoc]
    exact hderives'

variable {rank : Rank} {length : ℕ} {reader : Reader}

/-- The loop can only stop in an operand, and then after the phrase on its left and an operator. -/
theorem chainFrom_localises (hsound : Sound rank.operand reader)
    (hreader : Localises rank.operand length reader) {fuel : ℕ} {left text : List Char}
    {l : Expression} {stop : Stop} (hl : Derives (.joined rank) left l)
    (hlength : text.length < length)
    (h : chainFrom rank.level reader fuel l text = .error stop) :
    StopsAt (.joined rank) (left ++ text) stop := by
  induction fuel generalizing left text l with
  | zero => cases h
  | succ fuel ih =>
    unfold chainFrom at h
    split at h
    case h_1 => cases h
    case h_2 op after hop =>
      obtain ⟨space, symbol, rfl, hspace, hsymbol⟩ := operator?_sound hop
      simp only [List.length_append] at hlength
      rcases exists_of_bind_eq_error h with hstop | ⟨⟨r, rest⟩, hr, hloop⟩
      · have hafter : after.length < length := by omega
        apply (hreader _ _ hafter hstop).imp (left ++ (space ++ symbol))
        · simp only [List.append_assoc]
        · intro right r hright
          refine ⟨.binary op l r, ?_⟩
          simp only [List.append_assoc]
          exact .join hl hspace hsymbol hright
      · obtain ⟨right, rfl, hright⟩ := hsound _ _ _ hr
        rw [List.length_append] at hlength
        have hstops := ih (.join hl hspace hsymbol hright) (by omega) hloop
        simpa only [List.append_assoc] using hstops

theorem chain_localises (rank : Rank)
    (h : Sound rank.operand reader ∧ Localises rank.operand length reader) :
    Sound (.joined rank) (chain rank.level reader) ∧
      Localises (.joined rank) length (chain rank.level reader) := by
  obtain ⟨hsound, hreader⟩ := h
  refine ⟨chain_sound rank hsound, fun text stop hlength h => ?_⟩
  rcases exists_of_bind_eq_error h with hstop | ⟨⟨l, after⟩, hl, hloop⟩
  · apply (hreader _ _ hlength hstop).imp [] rfl
    intro body e hbody
    exact ⟨e, .operand hbody⟩
  · obtain ⟨left, rfl, hleft⟩ := hsound _ _ _ hl
    rw [List.length_append] at hlength
    exact chainFrom_localises hsound hreader (.operand hleft) (by omega) hloop

/-- Each rank stops where the rank below it does, or in a later operand. -/
theorem joined_localises (hsound : Sound .unary reader) (hreader : Localises .unary length reader) :
    Localises (.joined .disjunction) length (joined reader levels) := by
  have hproduct := chain_localises .product ⟨hsound, hreader⟩
  have hsum := chain_localises .sum hproduct
  have hcomparison := chain_localises .comparison hsum
  have hequality := chain_localises .equality hcomparison
  have hconjunction := chain_localises .conjunction hequality
  exact (chain_localises .disjunction hconjunction).2

/-- Inside a parenthesis what is missing is missing with one more mention; after the expression in
it, the closing parenthesis itself can be. -/
theorem parenthesized_localises {inner : Reader} (hsound : Sound (.joined .disjunction) inner)
    (hinner : Localises (.joined .disjunction) length inner) {text : List Char} {stop : Stop}
    (hlength : text.length < length) (h : parenthesized inner text = .error stop) :
    StopsAt .primary ('(' :: text) stop := by
  unfold parenthesized at h
  split at h
  case h_1 stop' hstop =>
    cases h
    obtain ⟨hstart, before, completion, e, rfl, hmissing, hderives⟩ := hinner _ _ hlength hstop
    refine ⟨hstart, '(' :: before, completion ++ [')'], e, rfl, hmissing.opened, ?_⟩
    have hprimary := @Derives.parentheses [] _ [] _ rfl hderives rfl
    simpa only [List.nil_append, List.cons_append, List.append_assoc] using hprimary
  case h_2 e after hread =>
    obtain ⟨body, rfl, hbody⟩ := hsound _ _ _ hread
    split at h
    case h_1 => cases h
    case h_2 hclose =>
      cases h
      have hspace := isBlank_takeWhile after
      refine ⟨startsOutside_dropWhile _ _, '(' :: (body ++ after.takeWhile isSpace), [')'], e, ?_,
        .parenthesis 0 ?_, ?_⟩
      · rw [List.cons_append, List.append_assoc, takeWhile_append_trimLeft]
      · intro hhead
        obtain ⟨rest, hrest⟩ := List.head?_eq_some_iff.mp hhead
        exact hclose rest hrest
      · have hprimary := @Derives.parentheses [] _ _ _ rfl hbody hspace
        simpa only [List.nil_append, List.cons_append, List.append_assoc] using hprimary

theorem atom_zero : Atom ['0'] (.literal (.number ((decimalOf ['0'] []).toNumber false))) :=
  .number (.whole (by simp [IsDigits]))

/-- An operand is read with more fuel than its text is long, so that the fuel does not end. -/
theorem operand_localises (fuel : ℕ) : Localises .unary fuel (operand fuel) := by
  induction fuel with
  | zero =>
    intro text stop hlength h
    exact absurd hlength (Nat.not_lt_zero _)
  | succ fuel ih =>
    intro text stop hlength h
    have hspace := isBlank_takeWhile text
    have htext := takeWhile_append_trimLeft text
    generalize text.takeWhile isSpace = space at hspace htext
    have hshort : ∀ {c : Char} {after : List Char}, trimLeft text = c :: after →
        after.length < fuel := by
      intro c after htrim
      have hle : (trimLeft text).length ≤ text.length := (List.dropWhile_suffix isSpace).length_le
      rw [htrim, List.length_cons] at hle
      omega
    unfold operand at h
    split at h
    case h_1 after htrim =>
      have hstops := ih _ _ (hshort htrim) (eq_error_of_map_eq_error h)
      apply hstops.imp (space ++ ['!'])
      · rw [List.append_assoc, ← htext, htrim]
        rfl
      · intro body e hbody
        rw [List.append_assoc]
        exact ⟨_, .not hspace hbody⟩
    case h_2 after htrim =>
      have hstops := ih _ _ (hshort htrim) (eq_error_of_map_eq_error h)
      apply hstops.imp (space ++ ['-'])
      · rw [List.append_assoc, ← htext, htrim]
        rfl
      · intro body e hbody
        rw [List.append_assoc]
        exact ⟨_, .negate hspace hbody⟩
    case h_3 after htrim =>
      have hsound := operand_sound fuel
      have hstops := parenthesized_localises (joined_sound hsound) (joined_localises hsound ih)
        (hshort htrim) h
      rw [htrim] at htext
      apply hstops.imp space htext.symm
      intro body e hbody
      exact ⟨e, (Derives.primary hbody).space_append hspace⟩
    case h_4 hnot hminus hopen =>
      split at h
      case h_1 => cases h
      case h_2 hatom =>
        cases h
        have hstart : StartsOutside isSpace (trimLeft text) := startsOutside_dropWhile _ _
        have hnone := not_derives_of_atom?_eq_none hstart hnot hminus hopen hatom
        exact ⟨hstart, space, ['0'], _, htext.symm, .operand 0 hnone,
          .primary (.atom hspace atom_zero)⟩

theorem intercalate_operands (count : ℕ) :
    String.intercalate ", " (List.replicate (count + 1) "operand") =
      "operand" ++ String.join (List.replicate count ", operand") := by
  induction count with
  | zero => rfl
  | succ count ih =>
    have hcomma : ", operand" = ", " ++ "operand" := rfl
    rw [List.replicate_succ, List.replicate_succ, String.intercalate_cons_cons,
      ← List.replicate_succ, ih, List.replicate_succ, String.join_cons, hcomma]
    simp only [String.append_assoc]

theorem message_operandExpected (count : ℕ) :
    (Reason.operandExpected (count + 1)).message =
      "expected operand" ++ String.join (List.replicate count ", operand") := by
  have hexpected : "expected " ++ "operand" = "expected operand" := rfl
  rw [← hexpected, String.append_assoc, ← intercalate_operands]
  rfl

/-- The two messages differ from each other and from the one about the end of the text. -/
theorem messages_ne (c : Char) (operands : String) :
    "unexpected character '" ++ String.singleton c ++ "'" ≠ "expected operand" ++ operands ∧
      "unexpected character '" ++ String.singleton c ++ "'" ≠ "unexpected end of expression" ∧
      "expected operand" ++ operands ≠ "unexpected end of expression" := by
  refine ⟨?_, ?_, ?_⟩ <;> intro h <;> simpa using congrArg String.toList h

namespace ParseError

/-- A complete expression is followed by a character that does not belong to it. -/
def IsTrailing (error : ParseError) (before after : String) : Prop :=
  ∃ c rest, after.toList = c :: rest ∧
    error.reason.message = "unexpected character '" ++ String.singleton c ++ "'" ∧
    ∃ e, ofText before = .ok e

/-- The text before the error is an expression with what the message says is missing. -/
def IsMissing (error : ParseError) (before after : String) : Prop :=
  ∃ count completion, Missing after.toList (count + 1) completion ∧
    error.reason.message =
      "expected operand" ++ String.join (List.replicate count ", operand") ∧
    ∃ e, ofText (before ++ String.ofList completion) = .ok e

/-- The error stands between two characters of the text, at a token or at the end, and its message
says what is wrong there. -/
structure Localised (error : ParseError) (source : String) : Prop where
  text : error.source = source
  boundary : (⟨error.offset⟩ : String.Pos.Raw).IsValid source
  reason : error.reason.message ≠ "unexpected end of expression"
  place : ∃ before after, source = before ++ after ∧ before.utf8ByteSize = error.offset ∧
    StartsOutside isSpace after.toList ∧
    Xor (error.IsTrailing before after) (error.IsMissing before after)

variable {error : ParseError} {before after : String}

theorem xor_of_or (h : error.IsTrailing before after ∨ error.IsMissing before after) :
    Xor (error.IsTrailing before after) (error.IsMissing before after) := by
  have hne : ¬ (error.IsTrailing before after ∧ error.IsMissing before after) := by
    rintro ⟨⟨c, _, _, hmessage, _⟩, ⟨count, _, _, hmessage', _⟩⟩
    exact (messages_ne c _).1 (hmessage.symm.trans hmessage')
  rw [xor_iff_or_and_not_and]
  exact ⟨h, hne⟩

theorem message_ne_of_or (h : error.IsTrailing before after ∨ error.IsMissing before after) :
    error.reason.message ≠ "unexpected end of expression" := by
  rcases h with ⟨c, _, _, hmessage, _⟩ | ⟨count, _, _, hmessage, _⟩
  · rw [hmessage]
    exact (messages_ne c "").2.1
  · rw [hmessage]
    exact (messages_ne ' ' _).2.2

/-- An offset that counts the bytes before a part of the text stands between two characters. -/
theorem localised_of_or {source : String} {front rest : List Char}
    (htext : source.toList = front ++ rest) (hsource : error.source = source)
    (hoffset : error.offset = byteLength source.toList - byteLength rest)
    (hstart : StartsOutside isSpace rest)
    (h : error.IsTrailing (String.ofList front) (String.ofList rest) ∨
      error.IsMissing (String.ofList front) (String.ofList rest)) : error.Localised source := by
  have hcut : source = String.ofList front ++ String.ofList rest := by
    rw [← String.ofList_append, ← htext, String.ofList_toList]
  have hbytes : (String.ofList front).utf8ByteSize = error.offset := by
    rw [hoffset, htext, byteLength_append, Nat.add_sub_cancel, byteLength_eq_utf8ByteSize]
  refine ⟨hsource, ?_, message_ne_of_or h, _, _, hcut, hbytes, ?_, xor_of_or h⟩
  · rw [String.Pos.Raw.isValid_iff_exists_append]
    exact ⟨_, _, hcut, String.Pos.Raw.ext hbytes.symm⟩
  · rwa [String.toList_ofList]

end ParseError

theorem exists_ofText_eq_ok {body space : List Char} {e : Expression}
    (hbody : Derives (.joined .disjunction) body e) (hspace : isBlank space = true) :
    ∃ e, ofText (String.ofList (body ++ space)) = .ok e := by
  refine ⟨e, ofText_eq_ok_of_writes ⟨body, space, ?_, hbody, hspace⟩⟩
  rw [String.toList_ofList]

/-- Every error stands at a token that no expression can go on with, or at the end of the text, and
the text before it is an expression or lacks exactly what the message mentions. -/
theorem localised_of_ofText_eq_error {source : String} {error : ParseError}
    (h : ofText source = .error error) : error.Localised source := by
  unfold ofText at h
  dsimp only at h
  split at h
  case h_1 stop hstop =>
    cases h
    let fuel := source.toList.length + 1
    have hlocalises := joined_localises (operand_sound fuel) (operand_localises fuel)
    obtain ⟨hstart, before, completion, e, htext, hmissing, hderives⟩ :=
      hlocalises _ _ (Nat.lt_succ_self _) hstop
    obtain ⟨e', hread⟩ := exists_ofText_eq_ok hderives (show isBlank [] = true from rfl)
    obtain ⟨count, hcount⟩ := Nat.exists_eq_add_of_le' hmissing.one_le
    apply ParseError.localised_of_or htext rfl rfl hstart
    refine .inr ⟨count, completion, ?_, ?_, e', ?_⟩
    · rwa [String.toList_ofList, ← hcount]
    · rw [← message_operandExpected, ← hcount]
    · rwa [List.append_nil, String.ofList_append] at hread
  case h_2 e rest hread =>
    obtain ⟨body, htext, hbody⟩ := joined_sound (operand_sound _) _ _ _ hread
    have hspace := isBlank_takeWhile rest
    have hrest := takeWhile_append_trimLeft rest
    have hstart : StartsOutside isSpace (trimLeft rest) := startsOutside_dropWhile _ _
    split at h
    case h_1 => cases h
    case h_2 c after htrim =>
      cases h
      rw [htrim] at hrest hstart
      have hcut : source.toList = body ++ rest.takeWhile isSpace ++ c :: after := by
        rw [htext, List.append_assoc, hrest]
      apply ParseError.localised_of_or hcut rfl rfl hstart
      refine .inl ⟨c, after, ?_, rfl, exists_ofText_eq_ok hbody hspace⟩
      rw [String.toList_ofList]

theorem localised_of_ofText_eq_error_open :
    ofText "('é' + (2 * " = .error ⟨"('é' + (2 * ", 13, .operandExpected 3⟩ ∧
      ParseError.Localised ⟨"('é' + (2 * ", 13, .operandExpected 3⟩ "('é' + (2 * " := by
  have h : ofText "('é' + (2 * " = .error ⟨"('é' + (2 * ", 13, .operandExpected 3⟩ := by
    decide +kernel
  exact ⟨h, localised_of_ofText_eq_error h⟩

end DecisionTables.Expression
