import DecisionTables.Json.Shape
import DecisionTables.Proofs.Json.Values

/-!
# JSON of a known shape

Two kinds of laws, one of each for every shape: what a shape gives, whatever the text, and what it
reads from the text of a JSON value. Main statement: a record reads back from an object that holds
its fields in their order, those that may be missing left out or not.
-/
namespace DecisionTables.Json
open Text

namespace Shape

variable {α : Type}

def Gives (shape : Shape α) (depth : ℕ) (P : α → Prop) : Prop :=
  ∀ text a rest, shape depth text = .ok (a, rest) → P a

/-- The shape gives `a` on every text that starts with `j` and does not go on as a number. -/
def Reads (shape : Shape α) (depth : ℕ) (j : Json) (a : α) : Prop :=
  ∀ rest, StartsOutside isNumberPart rest → shape depth (j.toChars ++ rest) = .ok (a, rest)

end Shape

namespace Shape

variable {α : Type} {shape : Shape α} {depth : ℕ} {P : α → Prop}

theorem gives_something (shape : Shape α) (depth : ℕ) : shape.Gives depth fun _ => True :=
  fun _ _ _ _ => trivial

theorem gives_any (depth : ℕ) : any.Gives depth (Readable depth) :=
  fun _ _ _ h => readable_of_value h

theorem exists_toNumber_eq_finite {text rest : List Char} {j : Json}
    (h : Json.number text = .ok (j, rest)) : ∃ y, toNumber j = some (.finite y) := by
  rcases number_sound h with ⟨i, rfl, hlow, hhigh⟩ | ⟨y, rfl⟩
  · have hsize : i.natAbs ≤ twoTo 64 := by
      have htwo : twoTo 64 = 18446744073709551616 := by decide
      simp only [negativeLimit, wholeLimit] at hlow hhigh
      omega
    have hlt : twoTo 64 < twoTo 1023 := twoTo_lt_twoTo (by decide)
    obtain ⟨y, hy⟩ := Number.exists_ofInt_eq_finite (hsize.trans_lt hlt)
    exact ⟨y, congrArg some hy⟩
  · exact ⟨y, rfl⟩

theorem gives_number (depth : ℕ) : number.Gives depth fun x => ∃ y, x = .finite y := by
  intro text x rest h
  unfold number at h
  split at h
  case h_1 c after _ =>
    split_ifs at h
    obtain ⟨⟨j, after⟩, hnumber, h⟩ := exists_of_bind_eq_ok h
    obtain ⟨y, hy⟩ := exists_toNumber_eq_finite hnumber
    simp only [hy] at h
    cases h
    exact ⟨y, rfl⟩
  case h_2 => cases h

/-- A value that is not left out does not start as `null` does. -/
theorem gives_optional (h : ∀ text a rest, (∀ tail, skipBlank text ≠ 'n' :: tail) →
    shape depth text = .ok (a, rest) → P a) :
    (optional shape).Gives depth fun value => ∀ a ∈ value, P a := by
  intro text value rest hread
  unfold optional at hread
  split at hread
  case h_1 =>
    obtain ⟨_, -, heq⟩ := exists_of_map_eq_ok hread
    cases heq
    simp
  case h_2 hnull =>
    obtain ⟨⟨a, _⟩, ha, heq⟩ := exists_of_map_eq_ok hread
    cases heq
    simpa using h text a rest hnull ha

theorem Gives.optional (h : shape.Gives depth P) :
    (optional shape).Gives depth fun value => ∀ a ∈ value, P a :=
  gives_optional fun text a rest _ => h text a rest

theorem gives_optional_any (depth : ℕ) :
    (Shape.optional any).Gives depth fun value => ∀ j ∈ value, j ≠ .null ∧ Readable depth j :=
  gives_optional fun _ _ _ hhead h => ⟨ne_null_of_value hhead h, readable_of_value h⟩

theorem listItems_forall {item : Reader α} (h : ∀ text a rest, item text = .ok (a, rest) → P a)
    {fuel : ℕ} {first : Bool} {text rest : List Char} {as : List α}
    (hread : listItems item fuel first text = .ok (as, rest)) : ∀ a ∈ as, P a := by
  induction fuel generalizing first text as with
  | zero => cases hread
  | succ fuel ih =>
    unfold listItems at hread
    obtain ⟨next, -, hread⟩ := exists_of_bind_eq_ok hread
    cases next with
    | none =>
      cases hread
      simp
    | some text =>
      obtain ⟨⟨a, text⟩, ha, hread⟩ := exists_of_bind_eq_ok hread
      obtain ⟨⟨as, text⟩, has, hread⟩ := exists_of_bind_eq_ok hread
      cases hread
      exact List.forall_mem_cons.mpr ⟨h _ _ _ ha, ih has⟩

theorem Gives.list (h : shape.Gives depth P) :
    (list shape).Gives (depth + 1) fun as => ∀ a ∈ as, P a := by
  intro text as rest hread
  unfold Shape.list at hread
  split at hread
  case h_1 => exact listItems_forall h hread
  case h_2 => cases hread

end Shape

namespace Field

variable {σ α : Type} {shape : Shape α} {set : σ → α → σ} {depth : ℕ} {P : α → Prop} {Q : σ → Prop}

def Keeps (field : Field σ) (depth : ℕ) (Q : σ → Prop) : Prop :=
  ∀ record, Q record → (field.read record).Gives depth Q

theorem gives_reading (h : shape.Gives depth P) {record : σ}
    (hset : ∀ a, P a → Q (set record a)) : (reading shape set record).Gives depth Q := by
  intro text result rest hread
  obtain ⟨⟨a, _⟩, ha, heq⟩ := exists_of_map_eq_ok hread
  cases heq
  exact hset a (h _ _ _ ha)

theorem keeps_mandatory (name : String) (h : shape.Gives depth P)
    (hset : ∀ record a, Q record → P a → Q (set record a)) :
    (mandatory name shape set).Keeps depth Q :=
  fun record hrecord => gives_reading h fun a => hset record a hrecord

theorem keeps_defaulted (name : String) (h : shape.Gives depth P)
    (hset : ∀ record a, Q record → P a → Q (set record a)) :
    (defaulted name shape set).Keeps depth Q :=
  fun record hrecord => gives_reading h fun a => hset record a hrecord

end Field

section Records

variable {σ : Type} {fields : List (Field σ)} {depth : ℕ} {P : σ → Prop}

theorem recordMembers_keeps (h : ∀ field ∈ fields, field.Keeps depth P) {fuel : ℕ} {first : Bool}
    {seen : List String} {record result : σ} {text rest : List Char} (hrecord : P record)
    (hread : recordMembers fields depth fuel first seen record text = .ok (result, rest)) :
    P result := by
  induction fuel generalizing first seen record text with
  | zero => cases hread
  | succ fuel ih =>
    unfold recordMembers at hread
    obtain ⟨next, -, hread⟩ := exists_of_bind_eq_ok hread
    cases next with
    | none =>
      dsimp only at hread
      split_ifs at hread
      cases hread
      exact hrecord
    | some text =>
      obtain ⟨⟨name, text⟩, -, hread⟩ := exists_of_bind_eq_ok hread
      dsimp only at hread
      split at hread
      case h_1 field hfind =>
        split_ifs at hread
        obtain ⟨text, -, hread⟩ := exists_of_bind_eq_ok hread
        obtain ⟨⟨record', text⟩, hfield, hread⟩ := exists_of_bind_eq_ok hread
        exact ih (h field (List.mem_of_find?_eq_some hfind) record hrecord _ _ _ hfield) hread
      case h_2 =>
        obtain ⟨text, -, hread⟩ := exists_of_bind_eq_ok hread
        obtain ⟨text, -, hread⟩ := exists_of_bind_eq_ok hread
        exact ih hrecord hread

theorem recordItems_keeps (h : ∀ field ∈ fields, field.Keeps depth P) {first : Bool}
    {record result : σ} {text rest : List Char} (hrecord : P record)
    (hread : recordItems depth fields first record text = .ok (result, rest)) : P result := by
  induction fields generalizing first record text with
  | nil =>
    obtain ⟨_, -, heq⟩ := exists_of_map_eq_ok hread
    cases heq
    exact hrecord
  | cons field fields ih =>
    obtain ⟨hfield, hfields⟩ := List.forall_mem_cons.mp h
    unfold recordItems at hread
    obtain ⟨next, -, hread⟩ := exists_of_bind_eq_ok hread
    cases next with
    | none =>
      dsimp only at hread
      split_ifs at hread
      exact ih hfields hrecord hread
    | some text =>
      obtain ⟨⟨record', text⟩, hvalue, hread⟩ := exists_of_bind_eq_ok hread
      exact ih hfields (hfield record hrecord _ _ _ hvalue) hread

theorem Shape.gives_record {initial : σ} (h : ∀ field ∈ fields, field.Keeps depth P)
    (hinitial : P initial) : (Shape.record fields initial).Gives (depth + 1) P := by
  intro text result rest hread
  unfold Shape.record at hread
  split at hread
  case h_1 => exact recordMembers_keeps h hinitial hread
  case h_2 => exact recordItems_keeps h hinitial hread
  case h_3 => cases hread

end Records

namespace Shape

variable {α : Type} {shape : Shape α} {depth : ℕ} {j : Json} {a : α}

theorem reads_text (depth : ℕ) (s : String) : text.Reads depth (.string s) s := by
  intro rest _
  have hread : text depth ('"' :: (s.toList.flatMap escape ++ '"' :: rest)) =
    quotedText (s.toList.flatMap escape ++ '"' :: rest) := rfl
  rw [toChars, quoted_append, hread, quotedText_quoted]

theorem reads_any (h : Readable depth j) : any.Reads depth j j := fun _ => readValue_toChars h

theorem reads_number (depth : ℕ) (x : FiniteNumber) :
    number.Reads depth (.real x) (.finite x) := by
  intro rest hrest
  obtain ⟨c, tail, hchars, hc⟩ := exists_head_real x
  have hnumber := number_real x hrest
  have hblank := isBlank_of_startsValue (startsValue_of_number hc)
  rw [toChars]
  rw [hchars, List.cons_append] at hnumber ⊢
  simp only [number, skipBlank_cons hblank, hc, if_true, hnumber, toNumber, bind, Except.bind]

theorem Reads.optional (h : shape.Reads depth j a) (hnull : j ≠ .null) :
    (optional shape).Reads depth j (some a) := by
  intro rest hrest
  obtain ⟨c, tail, hchars, hc, hn⟩ := exists_head j
  have hskip : skipBlank (j.toChars ++ rest) = c :: (tail ++ rest) := by
    rw [hchars, List.cons_append, skipBlank_cons (isBlank_of_startsValue hc)]
  unfold Shape.optional
  rw [hskip, h rest hrest]
  split
  case h_1 heq =>
    cases heq
    exact absurd rfl (hn hnull)
  case h_2 => rfl

theorem length_le_length_itemsFrom (first : Bool) (js : List Json) :
    js.length ≤ (itemsFrom first js).length := by
  induction js generalizing first with
  | nil => simp
  | cons j js ih =>
    have hj := length_toChars_pos j
    have hjs := ih false
    simp only [itemsFrom_cons, List.length_append, List.length_cons]
    omega

theorem listItems_itemsFrom {item : Reader α} {write : α → Json} {as : List α}
    (h : ∀ a ∈ as, ∀ rest, StartsOutside isNumberPart rest →
      item ((write a).toChars ++ rest) = .ok (a, rest)) (first : Bool) {fuel : ℕ}
    (hfuel : as.length ≤ fuel) (rest : List Char) :
    listItems item (fuel + 1) first (itemsFrom first (as.map write) ++ rest) = .ok (as, rest) := by
  induction as generalizing first fuel with
  | nil => rfl
  | cons a as ih =>
    obtain ⟨ha, has⟩ := List.forall_mem_cons.mp h
    rw [List.length_cons] at hfuel
    obtain ⟨fuel, rfl⟩ := Nat.exists_eq_succ_of_ne_zero (show fuel ≠ 0 by omega)
    have hvalue := ha (itemsFrom false (as.map write) ++ rest) (startsOutside_itemsFrom _ rest)
    have hrest := ih has false (show as.length ≤ fuel by omega)
    rw [List.map_cons, itemsFrom_cons, List.append_assoc, List.append_assoc, listItems,
      nextItem_toChars]
    simp only [hvalue, hrest, bind, Except.bind]

theorem reads_list {write : α → Json} {as : List α}
    (h : ∀ a ∈ as, shape.Reads depth (write a) a) :
    (list shape).Reads (depth + 1) (.array (as.map write)) as := by
  intro rest _
  have hlength := length_le_length_itemsFrom true (as.map write)
  rw [List.length_map] at hlength
  have hread : ∀ text, Shape.list shape (depth + 1) ('[' :: text) =
    listItems (shape depth) (text.length + 1) true text := fun _ => rfl
  rw [toChars, itemChars_eq_itemsFrom, List.cons_append, hread]
  refine listItems_itemsFrom h true ?_ rest
  rw [List.length_append]
  omega

theorem Reads.reading {σ : Type} (h : shape.Reads depth j a) (set : σ → α → σ) (record : σ) :
    (Field.reading shape set record).Reads depth j (set record a) := by
  intro rest hrest
  rw [Field.reading, h rest hrest]
  rfl

end Shape

/-- The members are fields of a record in their order, and reading their values one after the other
changes the first record into the second. Only fields that need not be there are left out. -/
inductive Fills {σ : Type} (depth : ℕ) : List (Field σ) → σ → List (String × Json) → σ → Prop
  | nil {record : σ} : Fills depth [] record [] record
  | absent {field : Field σ} {fields : List (Field σ)} {record result : σ}
      {members : List (String × Json)} (hRequired : field.required = false)
      (h : Fills depth fields record members result) :
      Fills depth (field :: fields) record members result
  | present (field : Field σ) {fields : List (Field σ)} {record next result : σ} {j : Json}
      {members : List (String × Json)} (hRead : (field.read record).Reads depth j next)
      (h : Fills depth fields next members result) :
      Fills depth (field :: fields) record ((field.name, j) :: members) result

section Records

variable {σ : Type} {depth : ℕ} {fields : List (Field σ)} {record result : σ}
  {members : List (String × Json)}

theorem length_le_length_membersFrom (first : Bool) (ms : List (String × Json)) :
    ms.length ≤ (membersFrom first ms).length := by
  induction ms generalizing first with
  | nil => simp
  | cons m ms ih =>
    obtain ⟨name, j⟩ := m
    have hms := ih false
    simp only [membersFrom_cons, List.length_append, List.length_cons]
    omega

theorem find?_append_field {before : List (Field σ)} {field : Field σ}
    (h : field.name ∉ before.map Field.name) :
    (before ++ field :: fields).find? (fun f => f.name == field.name) = some field := by
  have hbefore : before.find? (fun f => f.name == field.name) = none := by
    refine List.find?_eq_none.mpr fun f hf heq => h ?_
    exact List.mem_map.mpr ⟨f, hf, by simpa using heq⟩
  simp [List.find?_append, hbefore]

/-- The names seen are those of fields passed, and of each field passed that has to be there. -/
structure Passed (before : List (Field σ)) (seen : List String) : Prop where
  mem_names : ∀ name ∈ seen, name ∈ before.map Field.name
  mem_seen : ∀ field ∈ before, field.required = true → field.name ∈ seen

theorem Passed.all_seen {before : List (Field σ)} {seen : List String} (h : Passed before seen) :
    before.all (fun field => !field.required || seen.contains field.name) := by
  refine List.all_eq_true.mpr fun field hfield => ?_
  cases hreq : field.required with
  | false => rfl
  | true => simpa using h.mem_seen field hfield hreq

theorem Passed.absent {before : List (Field σ)} {seen : List String} (h : Passed before seen)
    {field : Field σ} (hRequired : field.required = false) : Passed (before ++ [field]) seen := by
  refine ⟨fun name hname => by simp [h.mem_names name hname], fun f hf hreq => ?_⟩
  rcases List.mem_append.mp hf with hf | hf
  · exact h.mem_seen f hf hreq
  · rw [List.mem_singleton.mp hf, hRequired] at hreq
    cases hreq

theorem Passed.present {before : List (Field σ)} {seen : List String} (h : Passed before seen)
    (field : Field σ) : Passed (before ++ [field]) (field.name :: seen) := by
  refine ⟨fun name hname => ?_, fun f hf hreq => ?_⟩
  · rcases List.mem_cons.mp hname with rfl | hname
    · simp
    · simp [h.mem_names name hname]
  · rcases List.mem_append.mp hf with hf | hf
    · exact List.mem_cons_of_mem _ (h.mem_seen f hf hreq)
    · rw [List.mem_singleton.mp hf]
      exact List.mem_cons_self

/-- Members are read where they stand for the fields that are still to come. -/
theorem recordMembers_membersFrom {before : List (Field σ)}
    (hnames : ((before ++ fields).map Field.name).Nodup)
    (h : Fills depth fields record members result) {seen : List String}
    (hpassed : Passed before seen) (first : Bool) {fuel : ℕ} (hfuel : members.length ≤ fuel)
    (rest : List Char) :
    recordMembers (before ++ fields) depth (fuel + 1) first seen record
      (membersFrom first members ++ rest) = .ok (result, rest) := by
  induction h generalizing before seen first fuel with
  | nil =>
    rw [recordMembers, nextMember_nil, List.append_nil]
    simp only [bind, Except.bind, hpassed.all_seen, if_true]
    rfl
  | @absent field fields record result members hRequired h ih =>
    -- No step of the reader: the field moves to those before, and the text is the same.
    rw [List.append_cons] at hnames ⊢
    exact ih hnames (hpassed.absent hRequired) first hfuel
  | @present field fields record next result j members hRead h ih =>
    have hnew : field.name ∉ before.map Field.name := by
      rw [List.map_append, List.nodup_append] at hnames
      exact fun hmem => hnames.2.2 _ hmem field.name (by simp) rfl
    have hunseen : seen.contains field.name = false := by
      simpa using fun hmem => hnew (hpassed.mem_names _ hmem)
    rw [List.length_cons] at hfuel
    obtain ⟨fuel, rfl⟩ := Nat.exists_eq_succ_of_ne_zero (show fuel ≠ 0 by omega)
    have hvalue := hRead _ (startsOutside_membersFrom members rest)
    have hcolon : colon (':' :: (j.toChars ++ (membersFrom false members ++ rest))) = .ok _ := rfl
    have hrest : recordMembers (before ++ field :: fields) depth (fuel + 1) false
        (field.name :: seen) next (membersFrom false members ++ rest) = .ok (result, rest) := by
      rw [List.append_cons] at hnames ⊢
      exact ih hnames (hpassed.present field) false (by omega)
    simp only [membersFrom_cons, List.append_assoc, List.cons_append, quoted_append]
    rw [recordMembers, nextMember_cons]
    simp only [quotedText_quoted, find?_append_field hnew, hunseen, hcolon, hvalue, hrest, bind,
      Except.bind, Bool.false_eq_true, if_false]

theorem Shape.reads_record (hnames : (fields.map Field.name).Nodup)
    (h : Fills depth fields record members result) :
    (Shape.record fields record).Reads (depth + 1) (.object members) result := by
  intro rest _
  have hlength := length_le_length_membersFrom true members
  have hread : ∀ text, Shape.record fields record (depth + 1) ('{' :: text) =
    recordMembers fields depth (text.length + 1) true [] record text := fun _ => rfl
  rw [toChars, memberChars_eq_membersFrom, List.cons_append, hread]
  show recordMembers ([] ++ fields) depth _ true [] record _ = _
  refine recordMembers_membersFrom hnames h ⟨by simp, by simp⟩ true ?_ rest
  rw [List.length_append]
  omega

end Records

namespace Fills

variable {σ α : Type} {depth : ℕ} {name : String} {fields : List (Field σ)} {record result : σ}
  {members : List (String × Json)}

theorem mandatory {shape : Shape α} {set : σ → α → σ} {j : Json} {a : α}
    (hRead : shape.Reads depth j a) (h : Fills depth fields (set record a) members result) :
    Fills depth (.mandatory name shape set :: fields) record ((name, j) :: members) result :=
  present (.mandatory name shape set) (hRead.reading set record) h

theorem defaulted {shape : Shape α} {set : σ → α → σ} {j : Json} {a : α}
    (hRead : shape.Reads depth j a) (h : Fills depth fields (set record a) members result) :
    Fills depth (.defaulted name shape set :: fields) record ((name, j) :: members) result :=
  present (.defaulted name shape set) (hRead.reading set record) h

/-- A member without a value is left out, and its field keeps the value that it has. -/
theorem optional {shape : Shape α} {set : σ → Option α → σ} {value : Option α} {write : α → Json}
    (hRead : ∀ a ∈ value, shape.Reads depth (write a) a ∧ write a ≠ .null)
    (hNone : set record none = record) (h : Fills depth fields (set record value) members result) :
    Fills depth (.defaulted name (.optional shape) set :: fields) record
      ((value.map fun a => (name, write a)).toList ++ members) result := by
  cases value with
  | none =>
    rw [hNone] at h
    exact absent rfl h
  | some a =>
    obtain ⟨ha, hnull⟩ := hRead a rfl
    exact defaulted (ha.optional hnull) h

end Fills

theorem Shape.Gives.ofTextAs {α : Type} {shape : Shape α} {P : α → Prop}
    (h : shape.Gives depthLimit P) {text : String} {a : α} (hread : ofTextAs shape text = .ok a) :
    P a := by
  obtain ⟨⟨b, rest⟩, hb, hread⟩ := exists_of_bind_eq_ok hread
  obtain ⟨_, -, hread⟩ := exists_of_bind_eq_ok hread
  cases hread
  exact h _ _ _ hb

theorem Shape.Reads.ofTextAs {α : Type} {shape : Shape α} {j : Json} {a : α}
    (h : shape.Reads depthLimit j a) : ofTextAs shape j.toText = .ok a := by
  have hread := h [] startsOutside_nil
  rw [List.append_nil] at hread
  simp only [Json.ofTextAs, toText, String.toList_ofList, hread, bind, Except.bind]
  rfl

theorem readable_of_ofText {text : String} {j : Json} (h : ofText text = .ok j) :
    Readable depthLimit j := (Shape.gives_any depthLimit).ofTextAs h

/-- A value that was read, or a part of it, reads back from its own text. -/
theorem Readable.ofText_own_text {j : Json} (h : Readable depthLimit j) :
    ofText j.toText = .ok j := (Shape.reads_any h).ofTextAs

end DecisionTables.Json
