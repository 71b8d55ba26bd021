/-!
# Fields

A finite map from names to values, kept as a list sorted by name. The order of names is that of
their code points, which is also the byte order of their UTF-8 forms. Since each map has one such
list, two maps with the same fields are equal, and whatever is written from a map has one order.
-/
namespace DecisionTables

namespace Fields

def insertEntry {α : Type} (name : String) (value : α) :
    List (String × α) → List (String × α)
  | [] => [(name, value)]
  | (name', value') :: rest =>
    match compare name name' with
    | .lt => (name, value) :: (name', value') :: rest
    | .eq => (name, value) :: rest
    | .gt => (name', value') :: insertEntry name value rest

/-- The names of a list of entries strictly increase. -/
def Sorted {α : Type} (entries : List (String × α)) : Prop :=
  entries.Pairwise fun a b => compare a.1 b.1 = .lt

theorem mem_insertEntry {α : Type} {name : String} {value : α} {entries : List (String × α)}
    {e : String × α} (h : e ∈ insertEntry name value entries) :
    e = (name, value) ∨ e ∈ entries := by
  induction entries with
  | nil => simpa [insertEntry] using h
  | cons e' rest ih =>
    unfold insertEntry at h
    split at h
    · simpa using h
    · rcases List.mem_cons.1 h with h | h
      · exact .inl h
      · exact .inr (List.mem_cons_of_mem _ h)
    · rcases List.mem_cons.1 h with h | h
      · exact .inr (by simp [h])
      · exact (ih h).imp_right (List.mem_cons_of_mem _)

theorem sorted_insertEntry {α : Type} (name : String) (value : α) {entries : List (String × α)}
    (h : Sorted entries) : Sorted (insertEntry name value entries) := by
  induction entries with
  | nil => simp [insertEntry, Sorted]
  | cons e rest ih =>
    obtain ⟨hHead, hTail⟩ := List.pairwise_cons.1 h
    unfold insertEntry
    split
    · rename_i hlt
      refine List.pairwise_cons.2 ⟨fun e' he' => ?_, h⟩
      rcases List.mem_cons.1 he' with rfl | he'
      · exact hlt
      · exact Std.TransCmp.lt_trans hlt (hHead e' he')
    · rename_i heq
      have := Std.LawfulEqCmp.eq_of_compare heq
      subst this
      exact List.pairwise_cons.2 ⟨hHead, hTail⟩
    · rename_i hgt
      refine List.pairwise_cons.2 ⟨fun e' he' => ?_, ih hTail⟩
      rcases mem_insertEntry he' with rfl | he'
      · exact Std.OrientedCmp.lt_of_gt hgt
      · exact hHead e' he'

end Fields

structure Fields (α : Type) where
  entries : List (String × α)
  sorted : Fields.Sorted entries

namespace Fields

variable {α β : Type}

instance [DecidableEq α] : DecidableEq (Fields α) := fun a b =>
  decidable_of_iff (a.entries = b.entries)
    ⟨fun h => by cases a; cases b; cases h; rfl, fun h => h ▸ rfl⟩

def empty : Fields α := ⟨[], List.Pairwise.nil⟩

/-- Puts a value under a name, in place of an earlier one. -/
def insert (fields : Fields α) (name : String) (value : α) : Fields α :=
  ⟨insertEntry name value fields.entries, sorted_insertEntry name value fields.sorted⟩

def ofList (entries : List (String × α)) : Fields α :=
  entries.foldl (fun fields e => fields.insert e.1 e.2) empty

def get? (fields : Fields α) (name : String) : Option α := fields.entries.lookup name

def contains (fields : Fields α) (name : String) : Bool := (fields.get? name).isSome

def size (fields : Fields α) : Nat := fields.entries.length

def isEmpty (fields : Fields α) : Bool := fields.entries.isEmpty

def map (f : α → β) (fields : Fields α) : Fields β :=
  ⟨fields.entries.map fun e => (e.1, f e.2), by
    simpa [Sorted, List.pairwise_map] using fields.sorted⟩

/-- The entries of another map, put into this one. -/
def update (fields other : Fields α) : Fields α :=
  other.entries.foldl (fun fields e => fields.insert e.1 e.2) fields

@[ext] theorem ext {a b : Fields α} (h : a.entries = b.entries) : a = b := by
  cases a; cases b; cases h; rfl

@[simp] theorem get?_empty (name : String) : (empty : Fields α).get? name = none := rfl

theorem lookup_cons_of_ne {name name' : String} (h : name ≠ name') (value : α)
    (rest : List (String × α)) : ((name', value) :: rest).lookup name = rest.lookup name := by
  have hb : (name == name') = false := beq_eq_false_iff_ne.2 h
  simp [List.lookup_cons, hb]

theorem lookup_insertEntry (name name' : String) (value : α) (entries : List (String × α)) :
    (insertEntry name value entries).lookup name' =
      if name' = name then some value else entries.lookup name' := by
  induction entries with
  | nil =>
    by_cases h : name' = name
    · simp [insertEntry, h]
    · rw [insertEntry, lookup_cons_of_ne h, if_neg h]
  | cons e rest ih =>
    obtain ⟨k, v⟩ := e
    unfold insertEntry
    split
    · by_cases h : name' = name
      · simp [h]
      · rw [lookup_cons_of_ne h, if_neg h]
    · rename_i heq
      have := Std.LawfulEqCmp.eq_of_compare heq
      subst this
      by_cases h : name' = name
      · simp [h]
      · rw [lookup_cons_of_ne h, lookup_cons_of_ne h, if_neg h]
    · rename_i hgt
      by_cases hk : name' = k
      · subst hk
        have hne : name' ≠ name := by
          intro h
          subst h
          simp at hgt
        simp [hne]
      · rw [lookup_cons_of_ne hk, lookup_cons_of_ne hk, ih]

theorem get?_insert (fields : Fields α) (name name' : String) (value : α) :
    (fields.insert name value).get? name' =
      if name' = name then some value else fields.get? name' :=
  lookup_insertEntry name name' value fields.entries

theorem lookup_map (f : String → α → β) (entries : List (String × α)) (name : String) :
    (entries.map fun e => (e.1, f e.1 e.2)).lookup name = (entries.lookup name).map (f name) := by
  induction entries with
  | nil => rfl
  | cons e rest ih =>
    obtain ⟨k, v⟩ := e
    by_cases h : name = k
    · simp [h]
    · rw [List.map_cons, lookup_cons_of_ne h, lookup_cons_of_ne h, ih]

theorem get?_map (f : α → β) (fields : Fields α) (name : String) :
    (fields.map f).get? name = (fields.get? name).map f :=
  lookup_map (fun _ => f) fields.entries name

/-- Of the values that are put in under one name the last counts. -/
theorem get?_foldl_insert (entries : List (String × α)) (fields : Fields α) (name : String) :
    (entries.foldl (fun fields e => fields.insert e.1 e.2) fields).get? name =
      (entries.reverse.lookup name).or (fields.get? name) := by
  induction entries generalizing fields with
  | nil => rfl
  | cons e rest ih =>
    obtain ⟨k, v⟩ := e
    rw [List.foldl_cons, ih, get?_insert, List.reverse_cons, List.lookup_append, Option.or_assoc]
    by_cases h : name = k
    · simp [h]
    · simp [h, lookup_cons_of_ne h]

theorem get?_ofList_eq_lookup_reverse (entries : List (String × α)) (name : String) :
    (ofList entries).get? name = entries.reverse.lookup name := by
  rw [ofList, get?_foldl_insert, get?_empty, Option.or_none]

/-- The last entry of a name has no entry of this name after it. -/
theorem lookup_reverse_eq_some_iff {entries : List (String × α)} {name : String} {value : α} :
    entries.reverse.lookup name = some value ↔
      ∃ before after, entries = before ++ (name, value) :: after ∧
        name ∉ after.map Prod.fst := by
  simp only [List.lookup_eq_some_iff, List.reverse_eq_append_iff, bne_iff_ne, List.mem_map]
  constructor
  · rintro ⟨after, before, rfl, hafter⟩
    refine ⟨before.reverse, after.reverse, by simp, ?_⟩
    rintro ⟨e, he, heq⟩
    exact hafter e (List.mem_reverse.mp he) heq.symm
  · rintro ⟨before, after, rfl, hafter⟩
    refine ⟨after.reverse, before.reverse, by simp, fun e he heq => ?_⟩
    exact hafter ⟨e, List.mem_reverse.mp he, heq.symm⟩

/-- Among distinct names, the look-up of a name finds the entry that bears it. -/
theorem lookup_eq_some_iff_mem {entries : List (String × α)} {name : String} {value : α}
    (h : (entries.map Prod.fst).Nodup) :
    entries.lookup name = some value ↔ (name, value) ∈ entries := by
  induction entries with
  | nil => simp
  | cons e rest ih =>
    obtain ⟨k, v⟩ := e
    rw [List.map_cons, List.nodup_cons] at h
    by_cases hk : name = k
    · subst hk
      have hrest : (name, value) ∉ rest := fun hmem => h.1 (List.mem_map.mpr ⟨_, hmem, rfl⟩)
      simp [hrest, eq_comm]
    · simp [lookup_cons_of_ne hk, ih h.2, hk]

theorem nodup_of_sorted {entries : List (String × α)} (h : Sorted entries) :
    (entries.map Prod.fst).Nodup := by
  refine List.pairwise_map.mpr (h.imp fun {a b} hlt heq => ?_)
  simp [heq] at hlt

theorem get?_eq_some_iff {fields : Fields α} {name : String} {value : α} :
    fields.get? name = some value ↔ (name, value) ∈ fields.entries :=
  lookup_eq_some_iff_mem (nodup_of_sorted fields.sorted)

theorem lookup_reverse {entries : List (String × α)} (h : (entries.map Prod.fst).Nodup)
    (name : String) : entries.reverse.lookup name = entries.lookup name := by
  have h' : (entries.reverse.map Prod.fst).Nodup :=
    (entries.reverse_perm.map Prod.fst).nodup_iff.mpr h
  refine Option.ext fun value => ?_
  rw [lookup_eq_some_iff_mem h, lookup_eq_some_iff_mem h', List.mem_reverse]

theorem get?_foldl_insert_of_nodup {entries : List (String × α)}
    (h : (entries.map Prod.fst).Nodup) (fields : Fields α) (name : String) :
    (entries.foldl (fun fields e => fields.insert e.1 e.2) fields).get? name =
      (entries.lookup name).or (fields.get? name) := by
  rw [get?_foldl_insert, lookup_reverse h]

theorem get?_ofList {entries : List (String × α)} (h : (entries.map Prod.fst).Nodup)
    (name : String) : (ofList entries).get? name = entries.lookup name := by
  rw [get?_ofList_eq_lookup_reverse, lookup_reverse h]

/-- An update keeps the fields that the other map does not have. -/
theorem get?_update (fields other : Fields α) (name : String) :
    (fields.update other).get? name = (other.get? name).or (fields.get? name) :=
  get?_foldl_insert_of_nodup (nodup_of_sorted other.sorted) fields name

theorem nodup_entries (fields : Fields α) : fields.entries.Nodup := by
  have hnames := List.pairwise_map.mp (nodup_of_sorted fields.sorted)
  exact hnames.imp fun hne heq => hne (congrArg Prod.fst heq)

theorem ext_get? {a b : Fields α} (h : ∀ name, a.get? name = b.get? name) : a = b := by
  have hperm : a.entries.Perm b.entries := by
    refine (List.perm_ext_iff_of_nodup a.nodup_entries b.nodup_entries).mpr fun e => ?_
    have ha : a.get? e.1 = some e.2 ↔ e ∈ a.entries := get?_eq_some_iff
    rw [← ha, h, get?_eq_some_iff]
  refine ext (hperm.eq_of_pairwise (fun e e' _ _ hlt hgt => ?_) a.sorted b.sorted)
  rw [Std.OrientedCmp.gt_of_lt hgt] at hlt
  cases hlt

/-- Entries with distinct names make one map in every order. -/
theorem ofList_perm {entries entries' : List (String × α)} (hperm : entries'.Perm entries)
    (h : (entries.map Prod.fst).Nodup) : ofList entries' = ofList entries := by
  have h' : (entries'.map Prod.fst).Nodup := (hperm.map _).nodup_iff.mpr h
  refine ext_get? fun name => Option.ext fun value => ?_
  rw [get?_ofList h', get?_ofList h, lookup_eq_some_iff_mem h', lookup_eq_some_iff_mem h,
    hperm.mem_iff]

theorem ofList_entries (fields : Fields α) : ofList fields.entries = fields :=
  ext_get? fun name => get?_ofList (nodup_of_sorted fields.sorted) name

end Fields
end DecisionTables
