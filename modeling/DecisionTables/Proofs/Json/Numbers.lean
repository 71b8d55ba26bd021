import DecisionTables.Json.Printer
import DecisionTables.Json.Token
import DecisionTables.Proofs.Number.Numeral
import DecisionTables.Proofs.Text.Runs

/-!
# Numbers in JSON

How a numeral is written, and that the reader takes it back from the start of a text where nothing
goes on with it. Main statements: a finite number is written as a numeral with a point or an
exponent that has its value, so it reads back as that number and not as a whole one, and a whole
number of 64 bits reads back as itself.
-/
namespace DecisionTables.Json
open Text

def isNumberPart (c : Char) : Bool := c.isDigit || c = '.' || c = 'e' || c = 'E'

namespace Numeral

@[simp] def fractionChars : Option (List Char) → List Char
  | none => []
  | some digits => '.' :: digits

@[simp] def exponentChars : Option ℤ → List Char
  | none => []
  | some e => 'e' :: (if e < 0 then '-' else '+') :: Nat.toDigits 10 e.natAbs

def toChars (n : Numeral) : List Char :=
  (if n.negative then ['-'] else []) ++
    (n.whole ++ (fractionChars n.fraction ++ exponentChars n.exponent))

/-- Each part has its digits, and the whole part no needless zero. -/
structure WellFormed (n : Numeral) : Prop where
  whole : IsDigits n.whole
  leading : n.whole.head? = some '0' → n.whole = ['0']
  fraction : ∀ digits ∈ n.fraction, IsDigits digits

end Numeral

theorem isDigits_toDigits (n : ℕ) : IsDigits (Nat.toDigits 10 n) :=
  Decimal.isDigits_digitChars ⟨n, 0⟩

theorem someDigits_run {digits rest : List Char} (hd : IsDigits digits)
    (hr : StartsOutside Char.isDigit rest) :
    someDigits (digits ++ rest) = .ok (digits, rest) := by
  obtain ⟨c, cs, rfl⟩ := List.exists_cons_of_ne_nil hd.1
  simp only [someDigits, spanDigits_run hd hr]

theorem wholePart_run {whole rest : List Char} (hd : IsDigits whole)
    (hleading : whole.head? = some '0' → whole = ['0']) (hr : StartsOutside Char.isDigit rest) :
    wholePart (whole ++ rest) = .ok (whole, rest) := by
  unfold wholePart
  rw [someDigits_run hd hr]
  split
  case h_1 heq =>
    cases heq
    simp at hleading
  case h_2 => rfl

theorem fractionPart_append {fraction : Option (List Char)} {rest : List Char}
    (hd : ∀ digits ∈ fraction, IsDigits digits) (hdigit : StartsOutside Char.isDigit rest)
    (hdot : StartsOutside (· = '.') rest) :
    fractionPart (Numeral.fractionChars fraction ++ rest) = .ok (fraction, rest) := by
  cases fraction with
  | none =>
    unfold fractionPart
    split
    case h_1 heq => simpa using hdot '.' (by rw [show rest = _ from heq]; rfl)
    case h_2 => rfl
  | some digits =>
    rw [Numeral.fractionChars, List.cons_append, fractionPart, someDigits_run (hd _ rfl) hdigit]
    rfl

theorem splitSign_sign (e : ℤ) (text : List Char) :
    splitSign ((if e < 0 then '-' else '+') :: text) = (decide (e < 0), text) := by
  split <;> simp [splitSign, *]

theorem exponentPart_append (exponent : Option ℤ) {rest : List Char}
    (hr : StartsOutside isNumberPart rest) :
    exponentPart (Numeral.exponentChars exponent ++ rest) = .ok (exponent, rest) := by
  have hdigit : StartsOutside Char.isDigit rest := hr.mono fun c hc => by simp [isNumberPart, hc]
  cases exponent with
  | none =>
    cases rest with
    | nil => rfl
    | cons c rest =>
      have hc := hr c rfl
      simp only [isNumberPart, Bool.or_eq_false_iff, decide_eq_false_iff_not] at hc
      simp [exponentPart, hc]
  | some e =>
    have hvalue : digitsValue (Nat.toDigits 10 e.natAbs) = e.natAbs :=
      Nat.ofDigitChars_ten_toDigits
    have hsign : (if decide (e < 0) = true then -(e.natAbs : ℤ) else e.natAbs) = e := by
      simp only [decide_eq_true_eq]
      omega
    simp only [Numeral.exponentChars, List.cons_append, exponentPart, true_or, if_true,
      splitSign_sign, someDigits_run (isDigits_toDigits _) hdigit, Except.map, hvalue, hsign]

theorem startsOutside_exponentChars {p : Char → Bool} (he : p 'e' = false)
    (hp : ∀ c, p c = true → isNumberPart c = true) {rest : List Char}
    (hr : StartsOutside isNumberPart rest) (exponent : Option ℤ) :
    StartsOutside p (Numeral.exponentChars exponent ++ rest) := by
  cases exponent with
  | none => exact hr.mono hp
  | some e => exact startsOutside_cons he

theorem numeral_of_parts (negative : Bool) {whole afterWhole afterFraction rest : List Char}
    {fraction : Option (List Char)} {exponent : Option ℤ} (hd : IsDigits whole)
    (hwhole : wholePart (whole ++ afterWhole) = .ok (whole, afterWhole))
    (hfraction : fractionPart afterWhole = .ok (fraction, afterFraction))
    (hexponent : exponentPart afterFraction = .ok (exponent, rest)) :
    numeral ((if negative then ['-'] else []) ++ (whole ++ afterWhole)) =
      .ok (⟨negative, whole, fraction, exponent⟩, rest) := by
  cases negative with
  | true => simp [numeral, hwhole, hfraction, hexponent, bind, Except.bind, pure, Except.pure]
  | false =>
    obtain ⟨c, cs, rfl⟩ := List.exists_cons_of_ne_nil hd.1
    have hminus : c ≠ '-' := by
      rintro rfl
      exact absurd (hd.2 '-' (by simp)) (by decide)
    rw [List.cons_append] at hwhole
    simp [numeral, hminus, hwhole, hfraction, hexponent, bind, Except.bind, pure, Except.pure]

theorem numeral_toChars {n : Numeral} (h : n.WellFormed) {rest : List Char}
    (hr : StartsOutside isNumberPart rest) : numeral (n.toChars ++ rest) = .ok (n, rest) := by
  have hdigit : StartsOutside Char.isDigit (Numeral.exponentChars n.exponent ++ rest) :=
    startsOutside_exponentChars (by decide) (fun c hc => by simp [isNumberPart, hc]) hr _
  have hdot : StartsOutside (· = '.') (Numeral.exponentChars n.exponent ++ rest) :=
    startsOutside_exponentChars (by decide) (fun c hc => by simp_all [isNumberPart]) hr _
  have hdigit' : StartsOutside Char.isDigit
      (Numeral.fractionChars n.fraction ++ (Numeral.exponentChars n.exponent ++ rest)) := by
    cases n.fraction with
    | none => exact hdigit
    | some digits => exact startsOutside_cons rfl
  simp only [Numeral.toChars, List.append_assoc]
  exact numeral_of_parts n.negative h.whole (wholePart_run h.whole h.leading hdigit')
    (fractionPart_append h.fraction hdigit hdot) (exponentPart_append n.exponent hr)

theorem number_toChars {n : Numeral} {j : Json} (h : n.WellFormed) (hvalue : n.value? = some j)
    {rest : List Char} (hr : StartsOutside isNumberPart rest) :
    number (n.toChars ++ rest) = .ok (j, rest) := by
  simp only [number, numeral_toChars h hr, bind, Except.bind, hvalue]

def IsWhole64 (i : ℤ) : Prop := -(negativeLimit : ℤ) ≤ i ∧ i < wholeLimit

theorem head?_toDigits_ne_zero {n : ℕ} (h : n ≠ 0) : (Nat.toDigits 10 n).head? ≠ some '0' := by
  induction n using Nat.strong_induction_on with
  | _ n ih =>
    by_cases hlt : n < 10
    · rw [Nat.toDigits_of_lt_base hlt]
      interval_cases n <;> simp_all [Nat.digitChar]
    · rw [Nat.toDigits_of_base_le (by decide) (by omega), List.head?_append]
      have hrec := ih (n / 10) (by omega) (by omega)
      cases hhead : (Nat.toDigits 10 (n / 10)).head? with
      | none => exact absurd (List.head?_eq_none_iff.mp hhead) Nat.toDigits_ne_nil
      | some c => rwa [hhead] at hrec

/-- The digits of a number start with a zero only if that is all of them. -/
theorem toDigits_eq_of_head? {n : ℕ} (h : (Nat.toDigits 10 n).head? = some '0') :
    Nat.toDigits 10 n = ['0'] := by
  by_cases hn : n = 0
  · rw [hn, Nat.toDigits_zero]
  · exact absurd h (head?_toDigits_ne_zero hn)

/-- A whole number of 64 bits is written as a numeral that has its value. -/
theorem exists_numeral_int {i : ℤ} (h : IsWhole64 i) :
    ∃ n : Numeral, n.WellFormed ∧ n.toChars = intChars i ∧ n.value? = some (.int i) := by
  have hdigits : digitsValue (Nat.toDigits 10 i.natAbs) = i.natAbs := Nat.ofDigitChars_ten_toDigits
  refine ⟨⟨i < 0, Nat.toDigits 10 i.natAbs, none, none⟩, ⟨isDigits_toDigits _,
    toDigits_eq_of_head?, by simp⟩, ?_, ?_⟩
  · by_cases hi : i < 0
    · simp [Numeral.toChars, intChars, hi]
    · simp [Numeral.toChars, intChars, hi, show i.toNat = i.natAbs by omega]
  · obtain ⟨hlow, hhigh⟩ := h
    by_cases hi : i < 0
    · have hsize : 0 < i.natAbs ∧ i.natAbs ≤ negativeLimit := by omega
      have hvalue : -(i.natAbs : ℤ) = i := by omega
      simp only [Numeral.value?, hdigits, hi, hsize, hvalue]
      simp
    · have hsize : i.natAbs < wholeLimit := by omega
      have hvalue : (i.natAbs : ℤ) = i := by omega
      simp only [Numeral.value?, hdigits, hi, hsize, hvalue]
      simp

/-- The text is that of a numeral without a sign, but with a point or an exponent, that has the
value of `d`. -/
def WritesReal (text : List Char) (d : Decimal) : Prop :=
  ∃ n : Numeral, n.WellFormed ∧ n.negative = false ∧ n.toChars = text ∧
    (n.fraction ≠ none ∨ n.exponent ≠ none) ∧
    ∀ negative, n.decimal.toNumber negative = d.toNumber negative

theorem writesReal_whole {d : Decimal} {n : ℕ} (hn : d.exponent = n)
    (hzero : d.digits = 0 → n = 0) :
    WritesReal (d.digitChars ++ List.replicate n '0' ++ ['.', '0']) d := by
  -- Only zero starts with a zero, and it has no exponent that would add more of them.
  have hleading : (d.digitChars ++ List.replicate n '0').head? = some '0' →
      d.digitChars ++ List.replicate n '0' = ['0'] := by
    by_cases hd : d.digits = 0
    · intro _
      rw [hzero hd, Decimal.digitChars, hd, Nat.toDigits_zero]
      rfl
    · rw [List.head?_append_of_ne_nil _ d.isDigits_digitChars.1]
      exact fun h => absurd h (head?_toDigits_ne_zero hd)
  refine ⟨⟨false, d.digitChars ++ List.replicate n '0', some ['0'], none⟩,
    ⟨isDigits_append_zeros d.isDigits_digitChars n, hleading, by simp [IsDigits]⟩, rfl, ?_,
    by simp, fun negative => ?_⟩
  · simp [Numeral.toChars]
  · have hdigits : d.digitChars ++ List.replicate n '0' ++ ['0'] =
        d.digitChars ++ List.replicate (n + 1) '0' := by
      rw [List.replicate_succ', List.append_assoc]
    have hexp : -(([('0' : Char)]).length : ℤ) + 0 + (n + 1 : ℕ) = d.exponent := by
      rw [hn]
      simp
    simp only [Numeral.decimal, decimalOf, Option.getD_some, Option.getD_none, hdigits,
      d.digitsValue_append_zeros, Decimal.toNumber_mul_tenTo, hexp]

theorem writesReal_inner_point {d : Decimal} {places : ℕ} (hexp : d.exponent = -places)
    (hlt : places < d.digitChars.length) (hpos : 0 < places) (hd : d.digits ≠ 0) :
    WritesReal (d.digitChars.take (d.digitChars.length - places) ++
      '.' :: d.digitChars.drop (d.digitChars.length - places)) d := by
  set whole := d.digitChars.take (d.digitChars.length - places) with hwhole
  set fraction := d.digitChars.drop (d.digitChars.length - places) with hfraction
  have hdigits : whole ++ fraction = d.digitChars := List.take_append_drop _ _
  have hleading : whole.head? ≠ some '0' := by
    rw [hwhole, List.head?_take, if_neg (by omega)]
    exact head?_toDigits_ne_zero hd
  have hlength : fraction.length = places := by
    rw [hfraction, List.length_drop]
    omega
  refine ⟨⟨false, whole, some fraction, none⟩, ⟨?_, fun h => absurd h hleading, ?_⟩, rfl, ?_,
    by simp, fun negative => ?_⟩
  · exact isDigits_take d.isDigits_digitChars (by omega)
  · rintro _ ⟨⟩
    exact isDigits_drop d.isDigits_digitChars (by omega)
  · simp [Numeral.toChars]
  · simp only [Numeral.decimal, decimalOf, Option.getD_some, Option.getD_none, hdigits,
      d.digitsValue_digitChars, hlength, Int.add_zero, ← hexp]

theorem writesReal_leading_point {d : Decimal} {zeros : ℕ}
    (hexp : d.exponent = -(zeros + d.digitChars.length : ℕ)) :
    WritesReal ('0' :: '.' :: (List.replicate zeros '0' ++ d.digitChars)) d := by
  have hfraction := isDigits_zeros_append zeros d.isDigits_digitChars
  refine ⟨⟨false, ['0'], some (List.replicate zeros '0' ++ d.digitChars), none⟩,
    ⟨by simp [IsDigits], fun _ => rfl, by simpa using hfraction⟩, rfl, ?_, by simp,
    fun negative => ?_⟩
  · simp [Numeral.toChars]
  · have hdigits : ['0'] ++ (List.replicate zeros '0' ++ d.digitChars) =
        List.replicate (zeros + 1) '0' ++ d.digitChars := rfl
    simp only [Numeral.decimal, decimalOf, Option.getD_some, Option.getD_none, hdigits,
      d.digitsValue_zeros_append, List.length_append, List.length_replicate, Int.add_zero, ← hexp]

theorem writesReal_positional {d : Decimal} (hzero : d.digits = 0 → d.exponent = 0) :
    WritesReal (d.positional ['.', '0']) d := by
  unfold Decimal.positional
  dsimp only
  split
  case isTrue hexp => exact writesReal_whole (by omega) (by omega)
  case isFalse hexp =>
    split
    case isTrue hplaces =>
      exact writesReal_inner_point (by omega) hplaces (by omega) fun h => hexp (hzero h).ge
    case isFalse hplaces => exact writesReal_leading_point (by omega)

theorem writesReal_scientific (d : Decimal) : WritesReal d.scientific d := by
  have hdigits := d.isDigits_digitChars
  have hvalue := d.digitsValue_digitChars
  have hexp : d.leadingExponent = d.exponent + d.digitChars.length - 1 := rfl
  unfold Decimal.scientific
  generalize d.digitChars = digits at hdigits hvalue hexp ⊢
  match digits with
  | [] => exact absurd rfl hdigits.1
  | [first] =>
    refine ⟨⟨false, [first], none, some d.leadingExponent⟩, ⟨hdigits, by simp, by simp⟩, rfl, ?_,
      by simp, fun negative => ?_⟩
    · simp [Numeral.toChars]
    · have hshift : -(([] : List Char).length : ℤ) + d.leadingExponent = d.exponent := by
        simp [hexp]
      simp only [Numeral.decimal, decimalOf, Option.getD_none, Option.getD_some, List.append_nil,
        hvalue, hshift]
  | first :: c :: rest =>
    have hfraction : IsDigits (c :: rest) := isDigits_drop hdigits (show 1 < _ by simp)
    refine ⟨⟨false, [first], some (c :: rest), some d.leadingExponent⟩,
      ⟨isDigits_take hdigits Nat.one_pos, by simp, by simpa using hfraction⟩, rfl, ?_, by simp,
      fun negative => ?_⟩
    · simp [Numeral.toChars]
    · have hshift : -((c :: rest).length : ℤ) + d.leadingExponent = d.exponent := by
        simp only [hexp, List.length_cons]
        omega
      simp only [Numeral.decimal, decimalOf, Option.getD_some, List.singleton_append, hvalue,
        hshift]

/-- A finite number is written as a numeral that is read as this number and not as a whole one. -/
theorem exists_numeral_real (x : FiniteNumber) :
    ∃ n : Numeral, n.WellFormed ∧ n.toChars = x.toChars .json ∧ n.value? = some (.real x) := by
  have hlayout : WritesReal ((x.shortest .toEven).layout .json) (x.shortest .toEven) := by
    unfold Decimal.layout
    split
    · exact writesReal_positional FiniteNumber.exponent_shortest
    · exact writesReal_scientific _
  obtain ⟨n, hwf, hsign, hchars, hreal, hvalue⟩ := hlayout
  refine ⟨{ n with negative := x.negative }, ⟨hwf.whole, hwf.leading, hwf.fraction⟩, ?_, ?_⟩
  · rw [FiniteNumber.toChars, show NumberForm.json.tie = .toEven from rfl, ← hchars]
    cases hnegative : x.negative with
    | true => simp [Numeral.toChars, hsign]
    | false => simp [Numeral.toChars, hsign]
  · have hnumber : ({ n with negative := x.negative } : Numeral).decimal.toNumber x.negative =
        .finite x := (hvalue x.negative).trans (x.toNumber_shortest .toEven)
    have hwhole : ¬ (n.fraction = none ∧ n.exponent = none) := by tauto
    simp only [Numeral.value?, ← and_assoc, hwhole, false_and, if_false, hnumber,
      Number.finite?, Option.map_some]

theorem number_intChars {i : ℤ} (h : IsWhole64 i) {rest : List Char}
    (hr : StartsOutside isNumberPart rest) :
    number (intChars i ++ rest) = .ok (.int i, rest) := by
  obtain ⟨n, hwf, hchars, hvalue⟩ := exists_numeral_int h
  rw [← hchars]
  exact number_toChars hwf hvalue hr

theorem number_real (x : FiniteNumber) {rest : List Char} (hr : StartsOutside isNumberPart rest) :
    number (x.toChars .json ++ rest) = .ok (.real x, rest) := by
  obtain ⟨n, hwf, hchars, hvalue⟩ := exists_numeral_real x
  rw [← hchars]
  exact number_toChars hwf hvalue hr

/-- A number that is read is finite, and if it is whole it has 64 bits. -/
theorem number_sound {text rest : List Char} {j : Json} (h : number text = .ok (j, rest)) :
    (∃ i, j = .int i ∧ IsWhole64 i) ∨ ∃ x, j = .real x := by
  unfold number at h
  obtain ⟨⟨n, _⟩, -, h⟩ := exists_of_bind_eq_ok h
  unfold Numeral.value? at h
  dsimp only at h
  split at h
  case h_2 => cases h
  case h_1 value hvalue =>
    cases h
    split_ifs at hvalue with hwhole hnegative
    · obtain ⟨-, -, -, hlt⟩ := hwhole
      cases hvalue
      exact .inl ⟨_, rfl, by omega, by omega⟩
    · obtain ⟨-, -, -, hpos, hle⟩ := hnegative
      cases hvalue
      exact .inl ⟨_, rfl, by omega, by omega⟩
    · obtain ⟨x, -, rfl⟩ := Option.map_eq_some_iff.mp hvalue
      exact .inr ⟨x, rfl⟩

theorem exists_head_intChars (i : ℤ) :
    ∃ c rest, intChars i = c :: rest ∧ (c = '-' ∨ c.isDigit = true) := by
  unfold intChars
  split
  · exact ⟨_, _, rfl, .inl rfl⟩
  · obtain ⟨c, rest, h⟩ := List.exists_cons_of_ne_nil (isDigits_toDigits i.toNat).1
    exact ⟨c, rest, h, .inr ((isDigits_toDigits i.toNat).2 c (by simp [h]))⟩

theorem exists_head_real (x : FiniteNumber) :
    ∃ c rest, x.toChars .json = c :: rest ∧ (c = '-' ∨ c.isDigit = true) := by
  obtain ⟨n, hwf, hchars, -⟩ := exists_numeral_real x
  rw [← hchars, Numeral.toChars]
  obtain ⟨c, cs, hwhole⟩ := List.exists_cons_of_ne_nil hwf.whole.1
  have hc : c.isDigit = true := hwf.whole.2 c (by simp [hwhole])
  cases n.negative with
  | true => exact ⟨'-', _, rfl, .inl rfl⟩
  | false => exact ⟨c, _, by rw [hwhole]; rfl, .inr hc⟩

end DecisionTables.Json
