import DecisionTables.Proofs.Text.Slices
import DecisionTables.Proofs.Condition.Patterns
import DecisionTables.Proofs.Condition.Scalars
import DecisionTables.Proofs.Record.Keys
import DecisionTables.Proofs.Expression.Errors
import Mathlib

/-!
# What the readers cut out of a text

The bounds of a range, the text between quotes, the parts of a dotted path and the place of an error
can be found by counting bytes. Here each is found that way, with every offset checked. Main
statement: no check fails on any text, and what is cut out is what the readers take.
-/
namespace DecisionTables

open Text

section Searches

/-- Where no step of a search fails, it finds what the search without failures does. -/
theorem findM?_eq_ok {α ε : Type} {l : List α} {f : α → Except ε Bool} {p : α → Bool}
    (h : ∀ a ∈ l, f a = .ok (p a)) : l.findM? f = .ok (l.find? p) := by
  induction l with
  | nil => rfl
  | cons a l ih =>
    have hrest := ih fun b hb => h b (List.mem_cons_of_mem a hb)
    simp only [List.findM?, List.find?_cons, h a List.mem_cons_self, hrest, bind, Except.bind]
    cases p a <;> rfl

theorem findSomeM?_eq_ok {α β ε : Type} {l : List α} {f : α → Except ε (Option β)}
    {g : α → Option β} (h : ∀ a ∈ l, f a = .ok (g a)) : l.findSomeM? f = .ok (l.findSome? g) := by
  induction l with
  | nil => rfl
  | cons a l ih =>
    have hrest := ih fun b hb => h b (List.mem_cons_of_mem a hb)
    simp only [List.findSomeM?_cons, List.findSome?_cons, h a List.mem_cons_self, hrest, bind,
      Except.bind]
    cases g a <;> rfl

theorem findSomeM?_map {α β γ ε : Type} (l : List α) (item : α → β)
    (f : β → Except ε (Option γ)) :
    (l.map item).findSomeM? f = l.findSomeM? fun a => f (item a) := by
  induction l with
  | nil => rfl
  | cons a l ih => rw [List.map_cons, List.findSomeM?_cons, List.findSomeM?_cons, ih]

/-- A search from the greatest number down finds the greatest one. -/
theorem find?_eq_some_of_greatest {l : List ℕ} {p : ℕ → Bool} {a : ℕ} (hl : l.Pairwise (· > ·))
    (ha : a ∈ l) (hp : p a = true) (hgreatest : ∀ b ∈ l, p b = true → b ≤ a) :
    l.find? p = some a := by
  obtain ⟨before, after, rfl⟩ := List.append_of_mem ha
  rw [List.find?_eq_some_iff_append]
  refine ⟨hp, before, after, rfl, fun b hb => ?_⟩
  have hgt : b > a := (List.pairwise_append.mp hl).2.2 b hb a List.mem_cons_self
  by_contra hpb
  have hle := hgreatest b (List.mem_append_left _ hb) (by simpa using hpb)
  omega

end Searches

namespace Cell

def startsWithDots (inner : String) (i : ℕ) : Except OffsetFault Bool := do
  return [0x2E, 0x2E].isPrefixOf (← bytesFrom inner i)

/-- The offsets that leave a byte before two dots and one after them, from the last to the first. -/
def offsetsForDots (inner : String) : List ℕ := (List.Ico 1 (inner.utf8ByteSize - 2)).reverse

/-- The offset of the rightmost two dots that have text on both sides. -/
def dotsOffset (inner : String) : Except OffsetFault (Option ℕ) :=
  (offsetsForDots inner).findM? (startsWithDots inner)

def boundsByOffset (inner : String) : Except OffsetFault (Option (String × String)) := do
  match ← dotsOffset inner with
  | none => return none
  | some i =>
    let low ← slice inner 0 i
    let high ← slice inner (i + 2) inner.utf8ByteSize
    return some (low, high)

variable {text : String} {i : ℕ}

theorem mem_offsetsForDots_iff : i ∈ offsetsForDots text ↔ 1 ≤ i ∧ i + 2 < text.utf8ByteSize := by
  rw [offsetsForDots, List.mem_reverse, List.Ico.mem]
  omega

theorem pairwise_offsetsForDots (text : String) : (offsetsForDots text).Pairwise (· > ·) :=
  List.pairwise_reverse.mpr (List.Ico.pairwise_lt _ _)

theorem startsWithDots_eq (hi : i ≤ text.utf8ByteSize) :
    startsWithDots text i = .ok (decide (HasByte text i '.' ∧ HasByte text (i + 1) '.')) := by
  have hbytes : bytesFrom text i = .ok ((bytes text).drop i) := if_pos hi
  have hdot : ('.' : Char).val.toUInt8 = 0x2E := rfl
  have hprefix : [0x2E, 0x2E].isPrefixOf ((bytes text).drop i) =
      decide (HasByte text i '.' ∧ HasByte text (i + 1) '.') := by
    rw [Bool.eq_iff_iff, decide_eq_true_iff, List.isPrefixOf_iff_prefix, List.prefix_iff_getElem?]
    simp only [HasByte, hdot, List.getElem?_drop, List.length_cons, List.length_nil]
    constructor
    · intro h
      exact ⟨h 0 (by omega), h 1 (by omega)⟩
    · rintro ⟨hfirst, hsecond⟩ j hj
      obtain rfl | rfl : j = 0 ∨ j = 1 := by omega
      · exact hfirst
      · exact hsecond
  rw [startsWithDots, hbytes]
  exact congrArg Except.ok hprefix

theorem hasByte_dots_iff : HasByte text i '.' ∧ HasByte text (i + 1) '.' ↔
    ∃ low high, text.toList = low ++ '.' :: '.' :: high ∧ byteLength low = i := by
  rw [hasByte_iff rfl, hasByte_iff rfl]
  constructor
  · rintro ⟨⟨low, rest, htext, rfl⟩, low', high, htext', hlow'⟩
    -- What stands before the second dot takes as many bytes as what ends with the first one.
    have hlow : low ++ ['.'] <+: text.toList := ⟨rest, by rw [htext, List.append_assoc]; rfl⟩
    have heq : low' = low ++ ['.'] :=
      eq_of_byteLength_eq ⟨_, htext'.symm⟩ hlow (by rw [hlow', byteLength_append]; rfl)
    refine ⟨low, high, ?_, rfl⟩
    rw [htext', heq, List.append_assoc]
    rfl
  · rintro ⟨low, high, htext, rfl⟩
    refine ⟨⟨low, _, htext, rfl⟩, low ++ ['.'], high, ?_, ?_⟩
    · rw [htext, List.append_assoc]
      rfl
    · rw [byteLength_append]
      rfl

/-- Two dots in range are two dots with text on both sides. -/
theorem exists_isCut_iff :
    (1 ≤ i ∧ i + 2 < text.utf8ByteSize) ∧ HasByte text i '.' ∧ HasByte text (i + 1) '.' ↔
      ∃ low high, (IsCut text.toList low high ∧ low ≠ []) ∧ byteLength low = i := by
  have hsize : ∀ {low high : List Char}, text.toList = low ++ '.' :: '.' :: high →
      text.utf8ByteSize = byteLength low + (2 + byteLength high) := by
    intro low high htext
    have hdots : byteLength ('.' :: '.' :: high) = 2 + byteLength high :=
      byteLength_append ['.', '.'] high
    rw [utf8ByteSize_eq, htext, byteLength_append, hdots]
  rw [hasByte_dots_iff]
  constructor
  · rintro ⟨⟨hfirst, hlast⟩, low, high, htext, rfl⟩
    rw [hsize htext] at hlast
    have hhigh : 0 < byteLength high := by omega
    exact ⟨low, high, ⟨⟨htext, byteLength_pos_iff.mp hhigh⟩, byteLength_pos_iff.mp hfirst⟩, rfl⟩
  · rintro ⟨low, high, ⟨⟨htext, hhigh⟩, hlow⟩, rfl⟩
    have hfirst := byteLength_pos_iff.mpr hlow
    have hlast := byteLength_pos_iff.mpr hhigh
    rw [hsize htext]
    exact ⟨⟨hfirst, by omega⟩, low, high, htext, rfl⟩

theorem IsCut.eq_append {body low high : List Char} (h : IsCut body low high) :
    body = low ++ ['.', '.'] ++ high := by
  rw [h.1, List.append_assoc]
  rfl

theorem dotsOffset_eq_find? (text : String) : dotsOffset text =
    .ok ((offsetsForDots text).find? fun i => HasByte text i '.' ∧ HasByte text (i + 1) '.') := by
  refine findM?_eq_ok fun i hi => startsWithDots_eq ?_
  have hrange := mem_offsetsForDots_iff.mp hi
  omega

/-- The greatest offset of two dots is that of the longest lower bound. -/
theorem dotsOffset_eq (text : String) :
    dotsOffset text = .ok ((splitBounds? text.toList).map fun cut => byteLength cut.1) := by
  have hcuts : ∀ i ∈ offsetsForDots text, decide (HasByte text i '.' ∧ HasByte text (i + 1) '.') →
      ∃ low high, (IsCut text.toList low high ∧ low ≠ []) ∧ byteLength low = i := by
    intro i hi hdots
    exact exists_isCut_iff.mp ⟨mem_offsetsForDots_iff.mp hi, of_decide_eq_true hdots⟩
  rw [dotsOffset_eq_find?]
  congr 1
  cases hsplit : splitBounds? text.toList with
  | none =>
    rw [Option.map_none, List.find?_eq_none]
    intro i hi hdots
    obtain ⟨low, high, ⟨hcut, hlow⟩, -⟩ := hcuts i hi hdots
    obtain ⟨cut, hsome⟩ := exists_splitBounds? hcut hlow
    rw [hsplit] at hsome
    cases hsome
  | some cut =>
    obtain ⟨low, high⟩ := cut
    obtain ⟨⟨hcut, hlow⟩, hlongest⟩ := splitBounds?_eq_some_iff.mp hsplit
    obtain ⟨hrange, hdots⟩ := exists_isCut_iff.mpr ⟨low, high, ⟨hcut, hlow⟩, rfl⟩
    apply find?_eq_some_of_greatest (pairwise_offsetsForDots text)
      (mem_offsetsForDots_iff.mpr hrange) (decide_eq_true hdots)
    intro i hi hdots'
    obtain ⟨low', high', ⟨hcut', hlow'⟩, rfl⟩ := hcuts i hi hdots'
    rw [← not_lt, byteLength_lt_iff ⟨_, hcut.1.symm⟩ ⟨_, hcut'.1.symm⟩]
    exact not_lt.mpr (hlongest low' high' hcut' hlow')

theorem isRange_of_dotsOffset (h : dotsOffset text = .ok (some i)) :
    1 ≤ i ∧ i + 2 < text.utf8ByteSize ∧ (HasByte text i '.' ∧ HasByte text (i + 1) '.') ∧
      IsRange text 0 i ∧ IsRange text (i + 2) text.utf8ByteSize := by
  rw [dotsOffset_eq, Except.ok.injEq] at h
  obtain ⟨⟨low, high⟩, hsplit, hi⟩ := Option.map_eq_some_iff.mp h
  obtain rfl : byteLength low = i := hi
  have hcut := (splitBounds?_eq_some_iff.mp hsplit).1
  obtain ⟨⟨hfirst, hlast⟩, hdots⟩ := exists_isCut_iff.mpr ⟨low, high, hcut, rfl⟩
  exact ⟨hfirst, hlast, hdots, isRange_around hcut.1.eq_append⟩

theorem boundsByOffset_eq (text : String) : boundsByOffset text =
    .ok ((splitBounds? text.toList).map fun cut => (String.ofList cut.1, String.ofList cut.2)) := by
  rw [boundsByOffset, dotsOffset_eq]
  cases hsplit : splitBounds? text.toList with
  | none => rfl
  | some cut =>
    obtain ⟨low, high⟩ := cut
    obtain ⟨⟨hcut, -⟩, -⟩ := splitBounds?_eq_some_iff.mp hsplit
    obtain ⟨hlow, hhigh⟩ := slices_around hcut.eq_append
    have hskip : byteLength low + 2 = byteLength low + byteLength ['.', '.'] := rfl
    simp only [Option.map_some, bind, Except.bind, hlow, hskip, hhigh]
    rfl

/-- The text between two equal quotes, as the slice without the first byte and the last; where
there is no such slice, the empty text. -/
def unquotedByOffsets (text : String) : Except OffsetFault (Option String) :=
  ['"', '\''].findSomeM? fun quote =>
    if text.toList.head? = some quote ∧ text.toList.getLast? = some quote then do
      let last ← difference text.utf8ByteSize 1
      return some ((slice text 1 last).toOption.getD "")
    else return none

theorem utf8Size_quote {quote : Char} (h : quote ∈ ['"', '\'']) : quote.utf8Size = 1 := by
  simp only [List.mem_cons, List.not_mem_nil, or_false] at h
  rcases h with rfl | rfl <;> rfl

/-- Between two quotes there is a slice; a quote alone is too short for one. -/
theorem Quoted.slice_eq {inner : List Char} (h : Quoted text.toList inner) :
    1 ≤ text.utf8ByteSize ∧
      (slice text 1 (text.utf8ByteSize - 1) = .ok (String.ofList inner) ∨
        slice text 1 (text.utf8ByteSize - 1) = .error (.slice 1 0) ∧ inner = []) := by
  rw [utf8ByteSize_eq]
  generalize htext : text.toList = chars at h
  cases h with
  | @enclosed quote _ hQuote =>
    have hsize : byteLength (quote :: (inner ++ [quote])) = 1 + byteLength inner + 1 := by
      simp only [byteLength, byteLength_append, utf8Size_quote hQuote]
      omega
    rw [hsize, Nat.add_sub_cancel]
    have hstart : byteLength [quote] = 1 := utf8Size_quote hQuote
    exact ⟨by omega, .inl (slice_eq_ok htext hstart rfl)⟩
  | @lone quote hQuote =>
    have hsize : byteLength [quote] = 1 := utf8Size_quote hQuote
    rw [hsize]
    exact ⟨Nat.le_refl 1, .inr ⟨dif_neg fun hrange => absurd hrange.1 (by decide), rfl⟩⟩

theorem unquotedByOffsets_eq (text : String) :
    unquotedByOffsets text = .ok ((unquoted? text.toList).map String.ofList) := by
  unfold unquotedByOffsets unquoted?
  rw [List.map_findSome?]
  apply findSomeM?_eq_ok
  intro quote hQuote
  dsimp only [Function.comp_apply]
  split_ifs with hends
  · obtain ⟨hsize, hslice⟩ := (quoted_of_ends hQuote hends.1 hends.2).slice_eq
    have hlast : difference text.utf8ByteSize 1 = .ok (text.utf8ByteSize - 1) := if_pos hsize
    simp only [hlast, bind, Except.bind, Option.map_some]
    rcases hslice with hslice | ⟨hslice, hinner⟩
    · rw [hslice]
      rfl
    · rw [hslice, hinner]
      rfl
  · rfl

theorem isRange_of_unquotedByOffsets {part : String}
    (h : unquotedByOffsets text = .ok (some part)) :
    1 ≤ text.utf8ByteSize ∧ (IsRange text 1 (text.utf8ByteSize - 1) ∨ part = "") := by
  rw [unquotedByOffsets_eq, Except.ok.injEq] at h
  obtain ⟨inner, hinner, rfl⟩ := Option.map_eq_some_iff.mp h
  obtain ⟨hsize, hslice⟩ := (unquoted?_eq_some_iff.mp hinner).slice_eq
  refine ⟨hsize, hslice.imp isRange_of_slice_eq_ok ?_⟩
  rintro ⟨-, rfl⟩
  rfl

end Cell

namespace FactRecord

def dotOffsets (path : String) : List ℕ :=
  (List.range path.utf8ByteSize).reverse.filter fun i => HasByte path i '.'

/-- The value that a path names, with each key and what follows it cut out at a dot, whether or not
there is a fact of that name. -/
def lookupByOffsets (record : FactRecord) (path : String) : Except OffsetFault (Option Value) :=
  match record.get? path with
  | some v => return some v
  | none => (dotOffsets path).findSomeM? fun i => do
    let key ← slice path 0 i
    let inner ← slice path (i + 1) path.utf8ByteSize
    return nested? record key.toList inner.toList

theorem mem_dotOffsets_iff {path : String} {i : ℕ} : i ∈ dotOffsets path ↔
    ∃ front rest, path.toList = front ++ '.' :: rest ∧ byteLength front = i := by
  have hdot : HasByte path i '.' ↔
      ∃ front rest, path.toList = front ++ '.' :: rest ∧ byteLength front = i := hasByte_iff rfl
  rw [dotOffsets, List.mem_filter, List.mem_reverse, List.mem_range, decide_eq_true_iff, hdot,
    and_iff_right_iff_imp]
  rintro ⟨front, rest, hpath, rfl⟩
  rw [utf8ByteSize_eq, hpath, byteLength_append]
  exact Nat.lt_add_of_pos_right (byteLength_pos_iff.mpr (List.cons_ne_nil _ _))

theorem dotOffsets_eq (path : String) :
    dotOffsets path = (splitsAtDots path.toList).map fun cut => byteLength cut.1 := by
  have hoffsets : (dotOffsets path).Pairwise (· > ·) :=
    (List.pairwise_reverse.mpr List.pairwise_lt_range).filter _
  have hcuts : ((splitsAtDots path.toList).map fun cut => byteLength cut.1).Pairwise (· > ·) := by
    rw [List.pairwise_map]
    refine (pairwise_splitsAtDots path.toList).imp_of_mem fun hcut hcut' hlt => ?_
    exact (byteLength_lt_iff ⟨_, (mem_splitsAtDots_iff.mp hcut').symm⟩
      ⟨_, (mem_splitsAtDots_iff.mp hcut).symm⟩).mpr hlt
  -- Both lists descend, so that they are equal if they have the same members.
  refine hoffsets.eq_of_mem_iff hcuts fun i => ?_
  rw [mem_dotOffsets_iff]
  constructor
  · rintro ⟨front, rest, hpath, hi⟩
    exact List.mem_map.mpr ⟨(front, rest), mem_splitsAtDots_iff.mpr hpath, hi⟩
  · intro h
    obtain ⟨⟨front, rest⟩, hcut, hi⟩ := List.mem_map.mp h
    exact ⟨front, rest, mem_splitsAtDots_iff.mp hcut, hi⟩

theorem lookupByOffsets_eq (record : FactRecord) (path : String) :
    record.lookupByOffsets path = .ok (record.lookup path) := by
  unfold lookupByOffsets lookup
  cases record.get? path with
  | some v => rfl
  | none =>
    dsimp only
    rw [dotOffsets_eq, findSomeM?_map]
    apply findSomeM?_eq_ok
    rintro ⟨key, inner⟩ hcut
    have hpath := mem_splitsAtDots_iff.mp hcut
    rw [List.append_cons] at hpath
    obtain ⟨hkey, hinner⟩ := slices_around hpath
    have hskip : byteLength key + 1 = byteLength key + byteLength ['.'] := rfl
    simp only [hkey, hskip, hinner, String.toList_ofList, bind, Except.bind]
    rfl

theorem isRange_of_mem_dotOffsets {path : String} {i : ℕ} (h : i ∈ dotOffsets path) :
    HasByte path i '.' ∧ IsRange path 0 i ∧ IsRange path (i + 1) path.utf8ByteSize := by
  obtain ⟨front, rest, hpath, rfl⟩ := mem_dotOffsets_iff.mp h
  refine ⟨(hasByte_iff rfl).mpr ⟨front, rest, hpath, rfl⟩, ?_⟩
  rw [List.append_cons] at hpath
  exact isRange_around hpath

end FactRecord

namespace Expression

/-- What is said about the text that reading left over. -/
def describe (remaining : String) : String :=
  match remaining.toList with
  | [] => "unexpected end of expression"
  | c :: _ => (Reason.unexpected c).message

/-- The message of an error's reason; where no operand is missing, it is about what follows the
offset. -/
def ParseError.reasonByOffset (error : ParseError) : Except OffsetFault String :=
  match error.reason with
  | .operandExpected mentions => return (Reason.operandExpected mentions).message
  | .unexpected _ => do
    return describe (← slice error.source error.offset error.source.utf8ByteSize)

/-- An error stands between two parts of the text; an unexpected character starts the second. -/
theorem exists_append_of_ofText_eq_error {source : String} {error : ParseError}
    (h : ofText source = .error error) : error.source = source ∧
      ∃ front rest, source.toList = front ++ rest ∧ byteLength front = error.offset ∧
        ∀ c, error.reason = .unexpected c → rest.head? = some c := by
  have hoffset : ∀ {front rest : List Char}, source.toList = front ++ rest →
      byteLength front = byteLength source.toList - byteLength rest := by
    intro front rest htext
    rw [htext, byteLength_append, Nat.add_sub_cancel]
  unfold ofText at h
  dsimp only at h
  split at h
  case h_1 stop hstop =>
    cases h
    have hlocalises := joined_localises (operand_sound (source.toList.length + 1))
      (operand_localises (source.toList.length + 1))
    obtain ⟨-, front, -, -, htext, -⟩ := hlocalises _ _ (Nat.lt_succ_self _) hstop
    exact ⟨rfl, front, stop.rest, htext, hoffset htext, nofun⟩
  case h_2 e rest hread =>
    obtain ⟨body, htext, -⟩ := joined_sound (operand_sound _) _ _ _ hread
    have hrest := takeWhile_append_trimLeft rest
    split at h
    case h_1 => cases h
    case h_2 c after htrim =>
      cases h
      rw [htrim] at hrest
      have hcut : source.toList = body ++ rest.takeWhile isSpace ++ c :: after := by
        rw [htext, List.append_assoc, hrest]
      refine ⟨rfl, _, c :: after, hcut, hoffset hcut, ?_⟩
      rintro _ ⟨⟩
      rfl

theorem isRange_of_ofText_eq_error {source : String} {error : ParseError}
    (h : ofText source = .error error) :
    IsRange source error.offset source.utf8ByteSize ∧
      error.reasonByOffset = .ok error.reason.message := by
  obtain ⟨hsource, front, rest, htext, hoffset, hhead⟩ := exists_append_of_ofText_eq_error h
  have hslice : slice source error.offset source.utf8ByteSize = .ok (String.ofList rest) := by
    rw [← List.append_nil front] at htext
    rw [← hoffset]
    exact (slices_around htext).2
  refine ⟨isRange_of_slice_eq_ok hslice, ?_⟩
  unfold ParseError.reasonByOffset
  rw [hsource, hslice]
  cases hreason : error.reason with
  | operandExpected mentions => rfl
  | unexpected c =>
    obtain ⟨after, rfl⟩ := List.head?_eq_some_iff.mp (hhead c hreason)
    have hdescribe : describe (String.ofList (c :: after)) = (Reason.unexpected c).message := by
      rw [describe, String.toList_ofList]
    exact congrArg Except.ok hdescribe

end Expression

/-- Every offset at which a reader cuts the text is one where it can be cut, and the parts between
these offsets are what the reader takes. -/
structure CutSafely (text : String) : Prop where
  dots : ∀ i, Cell.dotsOffset text = .ok (some i) → 1 ≤ i ∧ i + 2 < text.utf8ByteSize ∧
    (HasByte text i '.' ∧ HasByte text (i + 1) '.') ∧
    IsRange text 0 i ∧ IsRange text (i + 2) text.utf8ByteSize
  bounds : Cell.boundsByOffset text = .ok ((Cell.splitBounds? text.toList).map fun cut =>
    (String.ofList cut.1, String.ofList cut.2))
  quotes : ∀ inner, Cell.unquotedByOffsets text = .ok (some inner) → 1 ≤ text.utf8ByteSize ∧
    (IsRange text 1 (text.utf8ByteSize - 1) ∨ inner = "")
  unquoted : Cell.unquotedByOffsets text = .ok ((Cell.unquoted? text.toList).map String.ofList)
  path : ∀ i ∈ FactRecord.dotOffsets text, HasByte text i '.' ∧
    IsRange text 0 i ∧ IsRange text (i + 1) text.utf8ByteSize
  lookup : ∀ record : FactRecord, record.lookupByOffsets text = .ok (record.lookup text)
  error : ∀ e, Expression.ofText text = .error e →
    IsRange text e.offset text.utf8ByteSize ∧ e.reasonByOffset = .ok e.reason.message

/-- No slice that a reader takes of a text can fail. -/
theorem cutSafely (text : String) : CutSafely text where
  dots _ := Cell.isRange_of_dotsOffset
  bounds := Cell.boundsByOffset_eq text
  quotes _ := Cell.isRange_of_unquotedByOffsets
  unquoted := Cell.unquotedByOffsets_eq text
  path _ := FactRecord.isRange_of_mem_dotOffsets
  lookup record := record.lookupByOffsets_eq text
  error _ := Expression.isRange_of_ofText_eq_error

end DecisionTables
