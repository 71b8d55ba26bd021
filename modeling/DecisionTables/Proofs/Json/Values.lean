import DecisionTables.Json.Reader
import DecisionTables.Proofs.Json.Numbers
import DecisionTables.Proofs.Json.Strings

/-!
# JSON values

A value that is read has whole numbers of 64 bits only, objects sorted by name, and no more open
containers than were allowed. Main statement: every such value reads back from its own text,
whatever follows that cannot go on with a number.
-/
namespace DecisionTables.Json
open Text

/-- The values that can be read where `depth` containers may be opened. -/
inductive Readable : ℕ → Json → Prop
  | null {depth : ℕ} : Readable depth null
  | bool {depth : ℕ} (b : Bool) : Readable depth (bool b)
  | int {depth : ℕ} {i : ℤ} (h : IsWhole64 i) : Readable depth (int i)
  | real {depth : ℕ} (x : FiniteNumber) : Readable depth (real x)
  | string {depth : ℕ} (text : String) : Readable depth (string text)
  | array {depth : ℕ} {items : List Json} (h : ∀ item ∈ items, Readable depth item) :
      Readable (depth + 1) (array items)
  | object {depth : ℕ} {members : List (String × Json)} (hSorted : Fields.Sorted members)
      (h : ∀ m ∈ members, Readable depth m.2) : Readable (depth + 1) (object members)

/-- More containers may be opened than a value has. -/
theorem Readable.mono {depth depth' : ℕ} {j : Json} (h : Readable depth j)
    (hle : depth ≤ depth') : Readable depth' j := by
  induction h generalizing depth' with
  | null => exact .null
  | bool b => exact .bool b
  | int hi => exact .int hi
  | real x => exact .real x
  | string text => exact .string text
  | array hitems ih =>
    obtain ⟨depth', rfl⟩ := Nat.exists_eq_add_of_lt (Nat.lt_of_succ_le hle)
    exact .array fun item hitem => ih item hitem (by omega)
  | object hsorted hmembers ih =>
    obtain ⟨depth', rfl⟩ := Nat.exists_eq_add_of_lt (Nat.lt_of_succ_le hle)
    exact .object hsorted fun m hm => ih m hm (by omega)

/-- What is read is a scalar, where only `null` starts with an `n`, or a container whose content is
read with one container less. -/
theorem cases_of_value {fuel depth : ℕ} {text rest : List Char} {j : Json}
    (h : value (fuel + 1) depth text = .ok (j, rest)) :
    ((j = null → ∃ tail, skipBlank text = 'n' :: tail) ∧ ∀ depth, Readable depth j) ∨
      (∃ inner after js, depth = inner + 1 ∧ items fuel inner true after = .ok (js, rest) ∧
        j = array js) ∨
      ∃ inner after fields, depth = inner + 1 ∧
        members fuel inner true .empty after = .ok (fields, rest) ∧ j = ofFields fields := by
  unfold value at h
  split at h
  case h_1 => cases h
  case h_2 c after htext =>
    split_ifs at h with hnull htrue hfalse hquote hnumber harray hobject
    · obtain ⟨_, -, heq⟩ := exists_of_map_eq_ok h
      cases heq
      exact .inl ⟨fun _ => ⟨after, hnull ▸ htext⟩, fun _ => .null⟩
    · obtain ⟨_, -, heq⟩ := exists_of_map_eq_ok h
      cases heq
      exact .inl ⟨nofun, fun _ => .bool true⟩
    · obtain ⟨_, -, heq⟩ := exists_of_map_eq_ok h
      cases heq
      exact .inl ⟨nofun, fun _ => .bool false⟩
    · obtain ⟨⟨t, _⟩, -, heq⟩ := exists_of_map_eq_ok h
      cases heq
      exact .inl ⟨nofun, fun _ => .string t⟩
    · rcases number_sound h with ⟨i, rfl, hi⟩ | ⟨x, rfl⟩
      · exact .inl ⟨nofun, fun _ => .int hi⟩
      · exact .inl ⟨nofun, fun _ => .real x⟩
    · cases depth with
      | zero => cases h
      | succ inner =>
        obtain ⟨⟨js, _⟩, hitems, heq⟩ := exists_of_map_eq_ok h
        cases heq
        exact .inr (.inl ⟨inner, after, js, rfl, hitems, rfl⟩)
    · cases depth with
      | zero => cases h
      | succ inner =>
        obtain ⟨⟨fields, _⟩, hmembers, heq⟩ := exists_of_map_eq_ok h
        cases heq
        exact .inr (.inr ⟨inner, after, fields, rfl, hmembers, rfl⟩)

theorem ne_null_of_value {fuel depth : ℕ} {text rest : List Char} {j : Json}
    (hhead : ∀ tail, skipBlank text ≠ 'n' :: tail) (h : value fuel depth text = .ok (j, rest)) :
    j ≠ null := by
  cases fuel with
  | zero => cases h
  | succ fuel =>
    rcases cases_of_value h with ⟨hnull, -⟩ | ⟨_, _, js, -, -, rfl⟩ | ⟨_, _, fields, -, -, rfl⟩
    · intro heq
      obtain ⟨tail, htext⟩ := hnull heq
      exact hhead tail htext
    · nofun
    · nofun

-- By induction on the fuel, which bounds the three readers at once.
mutual

theorem readable_of_value : ∀ {fuel depth : ℕ} {text rest : List Char} {j : Json},
    value fuel depth text = .ok (j, rest) → Readable depth j
  | 0, _, _, _, _, h => by cases h
  | fuel + 1, depth, text, rest, j, h => by
    rcases cases_of_value h with ⟨-, hj⟩ | ⟨inner, _, js, rfl, hitems, rfl⟩ |
      ⟨inner, _, fields, rfl, hmembers, rfl⟩
    · exact hj depth
    · exact .array (readable_of_items hitems)
    · exact .object fields.sorted (readable_of_members (fun _ he => by cases he) hmembers)

theorem readable_of_items : ∀ {fuel depth : ℕ} {first : Bool} {text rest : List Char}
    {js : List Json}, items fuel depth first text = .ok (js, rest) →
      ∀ item ∈ js, Readable depth item
  | 0, _, _, _, _, _, h => by cases h
  | fuel + 1, depth, first, text, rest, js, h => by
    unfold items at h
    obtain ⟨next, -, h⟩ := exists_of_bind_eq_ok h
    cases next with
    | none =>
      cases h
      simp
    | some text =>
      obtain ⟨⟨item, text⟩, hitem, h⟩ := exists_of_bind_eq_ok h
      obtain ⟨⟨items, text⟩, hitems, h⟩ := exists_of_bind_eq_ok h
      cases h
      exact List.forall_mem_cons.mpr ⟨readable_of_value hitem, readable_of_items hitems⟩

theorem readable_of_members : ∀ {fuel depth : ℕ} {first : Bool} {before fields : Fields Json}
    {text rest : List Char}, (∀ e ∈ before.entries, Readable depth e.2) →
      members fuel depth first before text = .ok (fields, rest) →
      ∀ e ∈ fields.entries, Readable depth e.2
  | 0, _, _, _, _, _, _, _, h => by cases h
  | fuel + 1, depth, first, before, fields, text, rest, hbefore, h => by
    unfold members at h
    obtain ⟨next, -, h⟩ := exists_of_bind_eq_ok h
    cases next with
    | none =>
      cases h
      exact hbefore
    | some text =>
      obtain ⟨⟨name, text⟩, -, h⟩ := exists_of_bind_eq_ok h
      obtain ⟨text, -, h⟩ := exists_of_bind_eq_ok h
      obtain ⟨⟨item, text⟩, hitem, h⟩ := exists_of_bind_eq_ok h
      refine readable_of_members (fun e he => ?_) h
      rcases Fields.mem_insertEntry he with rfl | he
      · exact readable_of_value hitem
      · exact hbefore e he

end

theorem skipBlank_cons {c : Char} (h : isBlank c = false) (rest : List Char) :
    skipBlank (c :: rest) = c :: rest := by
  simp [skipBlank, h]

def separator (first : Bool) : List Char := if first then [] else [',']

def itemsFrom (first : Bool) (items : List Json) : List Char :=
  if items.isEmpty then [']'] else separator first ++ itemChars items

def membersFrom (first : Bool) (members : List (String × Json)) : List Char :=
  if members.isEmpty then ['}'] else separator first ++ memberChars members

theorem itemChars_eq_itemsFrom (items : List Json) : itemChars items = itemsFrom true items := by
  cases items with
  | nil => rfl
  | cons item items => simp [itemsFrom, separator]

theorem memberChars_eq_membersFrom (members : List (String × Json)) :
    memberChars members = membersFrom true members := by
  cases members with
  | nil => rfl
  | cons m members => simp [membersFrom, separator]

theorem itemsFrom_cons (first : Bool) (item : Json) (items : List Json) :
    itemsFrom first (item :: items) =
      separator first ++ (item.toChars ++ itemsFrom false items) := by
  cases items with
  | nil => simp [itemsFrom, itemChars]
  | cons item' items => simp [itemsFrom, itemChars, separator]

theorem membersFrom_cons (first : Bool) (name : String) (j : Json)
    (members : List (String × Json)) :
    membersFrom first ((name, j) :: members) =
      separator first ++ (quoted name ++ ':' :: (j.toChars ++ membersFrom false members)) := by
  cases members with
  | nil => simp [membersFrom, memberChars]
  | cons m members => simp [membersFrom, memberChars, separator]

theorem nextMember_nil (first : Bool) (rest : List Char) :
    nextMember first (membersFrom first [] ++ rest) = .ok none := rfl

theorem nextMember_cons (first : Bool) (rest : List Char) :
    nextMember first (separator first ++ '"' :: rest) = .ok (some rest) := by
  cases first <;> rfl

theorem startsOutside_itemsFrom (items : List Json) (rest : List Char) :
    StartsOutside isNumberPart (itemsFrom false items ++ rest) := by
  cases items <;> exact startsOutside_cons rfl

theorem startsOutside_membersFrom (members : List (String × Json)) (rest : List Char) :
    StartsOutside isNumberPart (membersFrom false members ++ rest) := by
  cases members <;> exact startsOutside_cons rfl

def startsValue (c : Char) : Bool :=
  c.isDigit || ['n', 't', 'f', '"', '-', '[', '{'].contains c

theorem isBlank_of_startsValue {c : Char} (h : startsValue c = true) : isBlank c = false := by
  cases hblank : isBlank c with
  | false => rfl
  | true =>
    simp only [isBlank, Bool.or_eq_true, decide_eq_true_eq] at hblank
    rcases hblank with ((rfl | rfl) | rfl) | rfl <;> cases h

theorem startsValue_of_number {c : Char} (h : c = '-' ∨ c.isDigit = true) :
    startsValue c = true := by
  rcases h with rfl | h
  · rfl
  · simp [startsValue, h]

theorem ne_of_number {c d : Char} (h : c = '-' ∨ c.isDigit = true) (hminus : d ≠ '-')
    (hdigit : d.isDigit = false) : c ≠ d := by
  rintro rfl
  simp [hminus, hdigit] at h

/-- A value is written with at least one character, and only `null` starts with an `n`. -/
theorem exists_head (j : Json) :
    ∃ c rest, j.toChars = c :: rest ∧ startsValue c = true ∧ (j ≠ null → c ≠ 'n') := by
  cases j with
  | null => exact ⟨_, _, rfl, rfl, fun h => absurd rfl h⟩
  | bool b => cases b <;> exact ⟨_, _, rfl, rfl, fun _ => by decide⟩
  | int i =>
    obtain ⟨c, rest, hchars, hc⟩ := exists_head_intChars i
    exact ⟨c, rest, hchars, startsValue_of_number hc, fun _ => ne_of_number hc (by decide) rfl⟩
  | real x =>
    obtain ⟨c, rest, hchars, hc⟩ := exists_head_real x
    exact ⟨c, rest, hchars, startsValue_of_number hc, fun _ => ne_of_number hc (by decide) rfl⟩
  | string text => exact ⟨_, _, rfl, rfl, fun _ => by decide⟩
  | array items => exact ⟨_, _, rfl, rfl, fun _ => by decide⟩
  | object members => exact ⟨_, _, rfl, rfl, fun _ => by decide⟩

theorem nextItem_toChars (first : Bool) (j : Json) (rest : List Char) :
    nextItem first (separator first ++ (j.toChars ++ rest)) = .ok (some (j.toChars ++ rest)) := by
  obtain ⟨c, tail, hchars, hc, -⟩ := exists_head j
  have hskip := skipBlank_cons (isBlank_of_startsValue hc) (tail ++ rest)
  have hclose : c ≠ ']' := by
    rintro rfl
    cases hc
  rw [hchars, List.cons_append]
  cases first with
  | true => simp [nextItem, separator, hskip]
  | false =>
    have hcomma : skipBlank (',' :: c :: (tail ++ rest)) = ',' :: c :: (tail ++ rest) := rfl
    simp [nextItem, separator, hcomma, hskip, hclose]

theorem length_toChars_pos (j : Json) : 0 < j.toChars.length := by
  obtain ⟨c, tail, hchars, -⟩ := exists_head j
  simp [hchars]

theorem value_of_number {c : Char} (h : c = '-' ∨ c.isDigit = true) (fuel depth : ℕ)
    (rest : List Char) : value (fuel + 1) depth (c :: rest) = number (c :: rest) := by
  have hblank := isBlank_of_startsValue (startsValue_of_number h)
  have hn := ne_of_number h (show 'n' ≠ '-' by decide) rfl
  have ht := ne_of_number h (show 't' ≠ '-' by decide) rfl
  have hf := ne_of_number h (show 'f' ≠ '-' by decide) rfl
  have hquote := ne_of_number h (show '"' ≠ '-' by decide) rfl
  simp only [value, skipBlank_cons hblank, hn, ht, hf, hquote, h, if_false, if_true]

theorem value_quote (fuel depth : ℕ) (rest : List Char) :
    value (fuel + 1) depth ('"' :: rest) =
      (quotedText rest).map fun (text, rest) => (.string text, rest) := rfl

theorem value_bracket (fuel depth : ℕ) (rest : List Char) :
    value (fuel + 1) (depth + 1) ('[' :: rest) =
      (items fuel depth true rest).map fun (items, rest) => (.array items, rest) := rfl

theorem value_brace (fuel depth : ℕ) (rest : List Char) :
    value (fuel + 1) (depth + 1) ('{' :: rest) =
      (members fuel depth true .empty rest).map fun (members, rest) =>
        (.ofFields members, rest) := rfl

def ReadsBack (depth : ℕ) (j : Json) : Prop :=
  ∀ fuel rest, j.toChars.length ≤ fuel → StartsOutside isNumberPart rest →
    value (fuel + 1) depth (j.toChars ++ rest) = .ok (j, rest)

theorem length_itemsFrom_pos (first : Bool) (js : List Json) :
    0 < (itemsFrom first js).length := by
  cases js with
  | nil => simp [itemsFrom]
  | cons j js =>
    have hj := length_toChars_pos j
    rw [itemsFrom_cons, List.length_append, List.length_append]
    omega

theorem items_itemsFrom {depth : ℕ} {js : List Json} (h : ∀ j ∈ js, ReadsBack depth j)
    (first : Bool) {fuel : ℕ} (hfuel : (itemsFrom first js).length ≤ fuel) (rest : List Char) :
    items (fuel + 1) depth first (itemsFrom first js ++ rest) = .ok (js, rest) := by
  induction js generalizing first fuel with
  | nil => rfl
  | cons j js ih =>
    obtain ⟨hj, hjs⟩ := List.forall_mem_cons.mp h
    have hlength : j.toChars.length + (itemsFrom false js).length ≤ fuel := by
      rw [itemsFrom_cons, List.length_append, List.length_append] at hfuel
      omega
    -- Neither the item nor what follows it is empty, so each is shorter than both together.
    have hhead := length_toChars_pos j
    have hmore := length_itemsFrom_pos false js
    obtain ⟨fuel, rfl⟩ := Nat.exists_eq_succ_of_ne_zero (show fuel ≠ 0 by omega)
    have hvalue := hj fuel (itemsFrom false js ++ rest) (by omega) (startsOutside_itemsFrom js rest)
    have hrest := ih hjs false (show _ ≤ fuel by omega)
    rw [itemsFrom_cons, List.append_assoc, List.append_assoc, items, nextItem_toChars]
    simp only [hvalue, hrest, bind, Except.bind]

theorem members_membersFrom {depth : ℕ} {ms : List (String × Json)}
    (h : ∀ m ∈ ms, ReadsBack depth m.2) (first : Bool) (before : Fields Json) {fuel : ℕ}
    (hfuel : (membersFrom first ms).length ≤ fuel) (rest : List Char) :
    members (fuel + 1) depth first before (membersFrom first ms ++ rest) =
      .ok (ms.foldl (fun fields m => fields.insert m.1 m.2) before, rest) := by
  induction ms generalizing first before fuel with
  | nil => rfl
  | cons m ms ih =>
    obtain ⟨name, j⟩ := m
    obtain ⟨hj, hms⟩ : ReadsBack depth j ∧ ∀ m ∈ ms, ReadsBack depth m.2 :=
      List.forall_mem_cons.mp h
    have hlength : j.toChars.length + 1 + (membersFrom false ms).length ≤ fuel := by
      simp only [membersFrom_cons, List.length_append, List.length_cons] at hfuel
      omega
    obtain ⟨fuel, rfl⟩ := Nat.exists_eq_succ_of_ne_zero (show fuel ≠ 0 by omega)
    have hvalue := hj fuel (membersFrom false ms ++ rest) (by omega)
      (startsOutside_membersFrom ms rest)
    have hrest := ih hms false (before.insert name j) (show _ ≤ fuel by omega)
    have hcolon : colon (':' :: (j.toChars ++ (membersFrom false ms ++ rest))) = .ok _ := rfl
    simp only [membersFrom_cons, List.append_assoc, List.cons_append, quoted_append]
    rw [members, nextMember_cons]
    simp only [quotedText_quoted, hcolon, hvalue, hrest, bind, Except.bind, List.foldl_cons]

theorem ofFields_ofList {members : List (String × Json)} (h : Fields.Sorted members) :
    ofFields (.ofList members) = object members :=
  congrArg ofFields (Fields.ofList_entries ⟨members, h⟩)

theorem Readable.readsBack {depth : ℕ} {j : Json} (h : Readable depth j) : ReadsBack depth j := by
  induction h with
  | null => exact fun fuel rest _ _ => rfl
  | bool b => cases b <;> exact fun fuel rest _ _ => rfl
  | @int depth i hi =>
    intro fuel rest _ hrest
    obtain ⟨c, tail, hchars, hc⟩ := exists_head_intChars i
    have hnumber := number_intChars hi hrest
    rw [toChars]
    rw [hchars, List.cons_append] at hnumber ⊢
    rw [value_of_number hc, hnumber]
  | @real depth x =>
    intro fuel rest _ hrest
    obtain ⟨c, tail, hchars, hc⟩ := exists_head_real x
    have hnumber := number_real x hrest
    rw [toChars]
    rw [hchars, List.cons_append] at hnumber ⊢
    rw [value_of_number hc, hnumber]
  | string text =>
    intro fuel rest _ _
    rw [toChars, quoted_append, value_quote, quotedText_quoted]
    rfl
  | @array depth js h ih =>
    intro fuel rest hfuel _
    rw [toChars, itemChars_eq_itemsFrom, List.length_cons] at hfuel
    obtain ⟨fuel, rfl⟩ := Nat.exists_eq_succ_of_ne_zero (show fuel ≠ 0 by omega)
    have hitems := items_itemsFrom ih true (show _ ≤ fuel by omega) rest
    rw [toChars, itemChars_eq_itemsFrom, List.cons_append, value_bracket, hitems]
    rfl
  | @object depth ms hsorted h ih =>
    intro fuel rest hfuel _
    rw [toChars, memberChars_eq_membersFrom, List.length_cons] at hfuel
    obtain ⟨fuel, rfl⟩ := Nat.exists_eq_succ_of_ne_zero (show fuel ≠ 0 by omega)
    have hmembers := members_membersFrom ih true .empty (show _ ≤ fuel by omega) rest
    rw [toChars, memberChars_eq_membersFrom, List.cons_append, value_brace, hmembers,
      ← ofFields_ofList hsorted]
    rfl

theorem readValue_toChars {depth : ℕ} {j : Json} (h : Readable depth j) {rest : List Char}
    (hrest : StartsOutside isNumberPart rest) :
    readValue depth (j.toChars ++ rest) = .ok (j, rest) := by
  refine h.readsBack (2 * (j.toChars ++ rest).length + 1) rest ?_ hrest
  rw [List.length_append]
  omega

end DecisionTables.Json
