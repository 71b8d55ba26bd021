import DecisionTables.Proofs.Record.Lookup
import DecisionTables.Proofs.Text.Runs
import Mathlib

/-!
# The key that decides a look-up

A path that is no key is cut at one of its dots into a key and the steps into its value. Main
statement: the path names what the longest key whose steps lead anywhere leads to. The longest key
with JSON in its value decides alone, then, exactly if a shorter one does not take its place.
-/
namespace DecisionTables.FactRecord
open Text

/-- A path cut at one of its dots: the key before it, and the steps between the dots after it. -/
structure Cuts (path key : String) (steps : List String) : Prop where
  path_eq : path = dotted key steps
  nonempty : steps ≠ []
  dot : ∀ step ∈ steps, '.' ∉ step.toList

variable {path key : String} {steps : List String}

theorem Cuts.toList_eq (h : Cuts path key steps) :
    path.toList = key.toList ++ '.' :: innerPath steps := by
  rw [h.path_eq, toList_dotted h.nonempty]

/-- The steps after a dot are the pieces between the dots after it. -/
theorem exists_cuts {front rest : List Char} (h : path.toList = front ++ '.' :: rest) :
    ∃ steps, Cuts path (String.ofList front) steps ∧ innerPath steps = rest := by
  have hinner : innerPath ((rest.splitOn '.').map String.ofList) = rest := by
    rw [innerPath, List.map_map, show String.toList ∘ String.ofList = id from
      funext fun chars => String.toList_ofList, List.map_id, List.intercalate_splitOn]
  have hne : (rest.splitOn '.').map String.ofList ≠ [] := by simp
  refine ⟨_, ⟨?_, hne, ?_⟩, hinner⟩
  · rw [← String.toList_inj, h, toList_dotted hne, hinner, String.toList_ofList]
  · intro step hstep
    obtain ⟨piece, hpiece, rfl⟩ := List.mem_map.mp hstep
    rw [String.toList_ofList]
    exact not_mem_of_mem_splitOn hpiece

theorem Cuts.unique {key' : String} {steps' : List String} (h : Cuts path key steps)
    (h' : Cuts path key' steps') (hlength : key.length = key'.length) :
    key = key' ∧ steps = steps' := by
  obtain ⟨hkey, hrest⟩ := List.append_inj (h.toList_eq.symm.trans h'.toList_eq)
    (by rwa [String.length_toList, String.length_toList])
  have hpieces : steps.map String.toList = steps'.map String.toList := by
    rw [← splitOn_innerPath h.dot h.nonempty, ← splitOn_innerPath h'.dot h'.nonempty,
      (List.cons.inj hrest).2]
  have hinjective : Function.Injective String.toList := fun _ _ => String.toList_injective
  exact ⟨hinjective hkey, hinjective.list_map hpieces⟩

theorem mem_splitsAtDots_iff {front rest chars : List Char} :
    (front, rest) ∈ splitsAtDots chars ↔ chars = front ++ '.' :: rest := by
  refine ⟨eq_of_mem_splitsAtDots, ?_⟩
  rintro rfl
  rw [splitsAtDots_append]
  exact List.mem_append_right _ List.mem_cons_self

theorem Cuts.mem_splitsAtDots (h : Cuts path key steps) :
    (key.toList, innerPath steps) ∈ splitsAtDots path.toList :=
  mem_splitsAtDots_iff.mpr h.toList_eq

/-- The cuts of a path are listed from the longest key to the shortest. -/
theorem pairwise_splitsAtDots (chars : List Char) :
    (splitsAtDots chars).Pairwise fun cut cut' => cut'.1.length < cut.1.length := by
  induction chars with
  | nil => exact .nil
  | cons c chars ih =>
    rw [splitsAtDots, List.pairwise_append, List.pairwise_map]
    refine ⟨ih.imp fun hlt => by simpa using hlt, ?_, ?_⟩
    · split_ifs
      · exact List.pairwise_singleton _ _
      · exact .nil
    · intro cut hcut cut' hcut'
      obtain ⟨longer, -, rfl⟩ := List.mem_map.mp hcut
      split_ifs at hcut'
      · cases List.mem_singleton.mp hcut'
        simp
      · cases hcut'

/-- A search through the cuts finds what the longest key gives that gives anything. -/
theorem findSome?_splitsAtDots_eq_some_iff {α : Type} {chars : List Char} {a : α}
    {f : List Char × List Char → Option α} :
    (splitsAtDots chars).findSome? f = some a ↔
      ∃ front rest, chars = front ++ '.' :: rest ∧ f (front, rest) = some a ∧
        ∀ front' rest', chars = front' ++ '.' :: rest' → front.length < front'.length →
          f (front', rest') = none := by
  have hsorted := pairwise_splitsAtDots chars
  rw [List.findSome?_eq_some_iff]
  constructor
  · rintro ⟨before, ⟨front, rest⟩, after, hsplits, hfound, hbefore⟩
    rw [hsplits, List.pairwise_append, List.pairwise_cons] at hsorted
    refine ⟨front, rest, mem_splitsAtDots_iff.mp (by simp [hsplits]), hfound, ?_⟩
    intro front' rest' hcut' hlonger
    have hmem := mem_splitsAtDots_iff.mpr hcut'
    rw [hsplits, List.mem_append, List.mem_cons] at hmem
    rcases hmem with hmem | heq | hmem
    · exact hbefore _ hmem
    · cases heq
      exact absurd hlonger (lt_irrefl _)
    · exact absurd hlonger (hsorted.2.1.1 _ hmem).not_gt
  · rintro ⟨front, rest, hcut, hfound, hlonger⟩
    obtain ⟨before, after, hsplits⟩ := List.append_of_mem (mem_splitsAtDots_iff.mpr hcut)
    rw [hsplits, List.pairwise_append] at hsorted
    refine ⟨before, _, after, hsplits, hfound, ?_⟩
    rintro ⟨front', rest'⟩ hmem
    exact hlonger front' rest' (mem_splitsAtDots_iff.mp (by simp [hsplits, hmem]))
      (hsorted.2.2 _ hmem _ List.mem_cons_self)

variable {record : FactRecord} {j : Json} {v : Value}

def HoldsJson (record : FactRecord) (key : String) (j : Json) : Prop :=
  ∃ text, record.get? key = some (.string text) ∧ Json.ofText text = .ok j ∧ j.isContainer = true

def LeadsTo (record : FactRecord) (key : String) (steps : List String) (v : Value) : Prop :=
  ∃ j target, HoldsJson record key j ∧ Json.Walk j (steps.flatMap stepsIn) target ∧
    v = .ofJson target

theorem HoldsJson.unique {j' : Json} (h : HoldsJson record key j) (h' : HoldsJson record key j') :
    j = j' := by
  obtain ⟨text, hget, hread, -⟩ := h
  obtain ⟨text', hget', hread', -⟩ := h'
  cases hget.symm.trans hget'
  exact Except.ok.inj (hread.symm.trans hread')

theorem flatMap_stepsIn_ne_nil (h : steps ≠ []) : steps.flatMap stepsIn ≠ [] := by
  obtain ⟨step, rest, rfl⟩ := List.exists_cons_of_ne_nil h
  simp [stepsIn, List.splitOn_ne_nil]

theorem isContainer_of_walk {target : Json} (h : Json.Walk j steps target) (hne : steps ≠ []) :
    j.isContainer = true := by
  cases h with
  | done => exact absurd rfl hne
  | step henters => cases henters <;> rfl

theorem nested?_eq_some_iff (h : Cuts path key steps) :
    nested? record key.toList (innerPath steps) = some v ↔ LeadsTo record key steps v := by
  rw [nested?, String.ofList_toList, stepsOf_innerPath h.dot h.nonempty]
  constructor
  · intro hnested
    split at hnested
    case h_1 text hget =>
      split at hnested
      case h_1 j hread =>
        obtain ⟨target, htarget, rfl⟩ := Option.map_eq_some_iff.mp hnested
        have hwalk := (Json.readable_of_ofText hread).at?_eq_some_iff.mp htarget
        have hcontainer := isContainer_of_walk hwalk (flatMap_stepsIn_ne_nil h.nonempty)
        exact ⟨j, target, ⟨text, hget, hread, hcontainer⟩, hwalk, rfl⟩
      case h_2 => cases hnested
    case h_2 => cases hnested
  · rintro ⟨j, target, ⟨text, hget, hread, -⟩, hwalk, rfl⟩
    simp only [hget, hread, (Json.readable_of_ofText hread).at?_eq_some_iff.mpr hwalk,
      Option.map_some]

theorem nested?_eq_none_iff (h : Cuts path key steps) :
    nested? record key.toList (innerPath steps) = none ↔ ¬ ∃ v, LeadsTo record key steps v := by
  simp only [Option.eq_none_iff_forall_ne_some, ne_eq, nested?_eq_some_iff h, not_exists]

/-- A path that is no key names what the longest key leads to whose steps lead anywhere. -/
theorem lookup_eq_some_iff (h : record.get? path = none) :
    record.lookup path = some v ↔
      ∃ key steps, Cuts path key steps ∧ LeadsTo record key steps v ∧
        ∀ key' steps', Cuts path key' steps' → key.length < key'.length →
          ¬ ∃ v', LeadsTo record key' steps' v' := by
  unfold lookup
  rw [h]
  dsimp only
  rw [findSome?_splitsAtDots_eq_some_iff]
  constructor
  · rintro ⟨front, rest, hpath, hfound, hlonger⟩
    obtain ⟨steps, hcuts, rfl⟩ := exists_cuts hpath
    rw [← String.toList_ofList (l := front), nested?_eq_some_iff hcuts] at hfound
    refine ⟨_, steps, hcuts, hfound, fun key' steps' hcuts' hlength => ?_⟩
    rw [← nested?_eq_none_iff hcuts']
    rw [String.length_ofList] at hlength
    exact hlonger key'.toList _ hcuts'.toList_eq (by rwa [String.length_toList])
  · rintro ⟨key, steps, hcuts, hleads, hlonger⟩
    have hfound := (nested?_eq_some_iff hcuts).mpr hleads
    refine ⟨key.toList, innerPath steps, hcuts.toList_eq, hfound, ?_⟩
    intro front' rest' hpath' hlength
    obtain ⟨steps', hcuts', rfl⟩ := exists_cuts hpath'
    rw [String.length_toList] at hlength
    have hnone := (nested?_eq_none_iff hcuts').mpr
      (hlonger _ steps' hcuts' (by rwa [String.length_ofList]))
    rwa [String.toList_ofList] at hnone

/-- No longer part of the path is a key with JSON in its value. -/
structure IsLongestKey (record : FactRecord) (path key : String) (steps : List String) (j : Json) :
    Prop where
  cuts : Cuts path key steps
  holds : HoldsJson record key j
  longest : ∀ key' steps' j', Cuts path key' steps' → HoldsJson record key' j' →
    key'.length ≤ key.length

theorem IsLongestKey.unique {key' : String} {steps' : List String} {j' : Json}
    (h : IsLongestKey record path key steps j) (h' : IsLongestKey record path key' steps' j') :
    steps = steps' ∧ j = j' := by
  have hlength := le_antisymm (h'.longest _ _ _ h.cuts h.holds) (h.longest _ _ _ h'.cuts h'.holds)
  obtain ⟨rfl, rfl⟩ := h.cuts.unique h'.cuts hlength
  exact ⟨rfl, h.holds.unique h'.holds⟩

/-- A key is the longest one if it ends at the last dot of the path. -/
theorem isLongestKey_of_last_dot (hcuts : Cuts path key steps) (hholds : HoldsJson record key j)
    (hlast : ∀ cut ∈ splitsAtDots path.toList, cut.1.length ≤ key.length) :
    IsLongestKey record path key steps j := by
  refine ⟨hcuts, hholds, fun key' steps' j' hcuts' _ => ?_⟩
  have hlength := hlast _ hcuts'.mem_splitsAtDots
  rwa [String.length_toList] at hlength

/-- The path names what the longest key with JSON in its value leads to, one step a dot, and nothing
where that key leads nowhere or where there is none. -/
structure DecidedByLongestKey (record : FactRecord) (path : String) : Prop where
  reaches : ∀ key steps j, IsLongestKey record path key steps j → ∀ v,
    record.lookup path = some v ↔ ∃ target, Json.Walk j steps target ∧ v = .ofJson target
  absent : (¬ ∃ key steps j, Cuts path key steps ∧ HoldsJson record key j) →
    record.lookup path = none

/-- The steps behind the longest key lead nowhere, and those behind a shorter one to a value. -/
structure FallsThrough (record : FactRecord) (path key : String) (steps : List String) (j : Json) :
    Prop where
  isLongest : IsLongestKey record path key steps j
  nowhere : ¬ ∃ target, Json.Walk j steps target
  shorter : ∃ key' steps' v, Cuts path key' steps' ∧ key'.length < key.length ∧
    LeadsTo record key' steps' v

theorem LeadsTo.exists_holdsJson (h : LeadsTo record key steps v) :
    ∃ j, HoldsJson record key j := by
  obtain ⟨j, -, hholds, -⟩ := h
  exact ⟨j, hholds⟩

/-- Plain steps are looked up as they are. -/
theorem HoldsJson.leadsTo_iff (h : HoldsJson record key j) (hsteps : ∀ step ∈ steps, IsStep step) :
    LeadsTo record key steps v ↔ ∃ target, Json.Walk j steps target ∧ v = .ofJson target := by
  rw [LeadsTo, flatMap_stepsIn hsteps]
  constructor
  · rintro ⟨j', target, h', hwalk, hv⟩
    rw [h.unique h']
    exact ⟨target, hwalk, hv⟩
  · rintro ⟨target, hwalk, hv⟩
    exact ⟨j, target, h, hwalk, hv⟩

theorem lookup_eq_none_iff (h : record.get? path = none) :
    record.lookup path = none ↔
      ∀ key steps v, Cuts path key steps → ¬ LeadsTo record key steps v := by
  constructor
  · intro hnone key steps v hcuts hleads
    have hcut := (nested?_eq_some_iff hcuts).mpr hleads
    unfold lookup at hnone
    rw [h] at hnone
    dsimp only at hnone
    rw [List.findSome?_eq_none_iff] at hnone
    cases (hnone _ hcuts.mem_splitsAtDots).symm.trans hcut
  · intro hnowhere
    rw [Option.eq_none_iff_forall_ne_some]
    intro v hlookup
    obtain ⟨key, steps, hcuts, hleads, -⟩ := (lookup_eq_some_iff h).mp hlookup
    exact hnowhere key steps v hcuts hleads

/-- A path that is no key names what the longest key leads to whose steps lead anywhere. Where the
steps behind the longest key are plain, that key decides alone, unless it leads nowhere and a
shorter one takes its place. -/
theorem decidedByLongestKey_iff (h : record.get? path = none) :
    (∀ v, record.lookup path = some v ↔
      ∃ key steps, Cuts path key steps ∧ LeadsTo record key steps v ∧
        ∀ key' steps', Cuts path key' steps' → key.length < key'.length →
          ¬ ∃ v', LeadsTo record key' steps' v') ∧
    ((∀ key steps j, IsLongestKey record path key steps j → ∀ step ∈ steps, IsStep step) →
      (DecidedByLongestKey record path ↔
        ¬ ∃ key steps j, FallsThrough record path key steps j)) := by
  refine ⟨fun v => lookup_eq_some_iff h, fun hplain => ⟨?_, fun hstays => ⟨?_, ?_⟩⟩⟩
  · rintro hdecided ⟨key, steps, j, hlongest, hnowhere, key', steps', v, hcuts, -, hleads⟩
    have hnone : record.lookup path = none := by
      rw [Option.eq_none_iff_forall_ne_some]
      intro v' hv'
      obtain ⟨target, hwalk, -⟩ := (hdecided.reaches key steps j hlongest v').mp hv'
      exact hnowhere ⟨target, hwalk⟩
    exact (lookup_eq_none_iff h).mp hnone key' steps' v hcuts hleads
  · intro key steps j hlongest v
    have hleadsTo := fun v' => hlongest.holds.leadsTo_iff (v := v') (hplain key steps j hlongest)
    rw [lookup_eq_some_iff h, ← hleadsTo v]
    constructor
    · rintro ⟨key', steps', hcuts, hleads, hlonger⟩
      obtain ⟨j', hholds⟩ := hleads.exists_holdsJson
      rcases (hlongest.longest key' steps' j' hcuts hholds).eq_or_lt with hlength | hshorter
      · obtain ⟨rfl, rfl⟩ := hlongest.cuts.unique hcuts hlength.symm
        exact hleads
      -- A shorter key answers only where the longest one leads nowhere, and takes its place then.
      · refine absurd ⟨key, steps, j, hlongest, ?_, key', steps', v, hcuts, hshorter, hleads⟩ hstays
        rintro ⟨target, hwalk⟩
        exact hlonger key steps hlongest.cuts hshorter ⟨_, (hleadsTo _).mpr ⟨target, hwalk, rfl⟩⟩
    · intro hleads
      refine ⟨key, steps, hlongest.cuts, hleads, fun key' steps' hcuts hlonger hleads' => ?_⟩
      obtain ⟨v', hleads'⟩ := hleads'
      obtain ⟨j', hholds⟩ := hleads'.exists_holdsJson
      exact absurd hlonger (hlongest.longest key' steps' j' hcuts hholds).not_gt
  · intro hnoKey
    rw [lookup_eq_none_iff h]
    intro key steps v hcuts hleads
    obtain ⟨j, hholds⟩ := hleads.exists_holdsJson
    exact hnoKey ⟨key, steps, j, hcuts, hholds⟩

/-- Both the path's first part and its first two parts are keys with JSON in their values. -/
def overlapRecord : FactRecord :=
  .ofList [("a", .string "\x7b\"b\":\x7b\"c\":1\x7d\x7d"), ("a.b", .string "\x7b\"x\":2\x7d")]

theorem holdsJson_a :
    HoldsJson overlapRecord "a" (.object [("b", .object [("c", .int 1)])]) :=
  ⟨_, rfl, by decide +kernel, rfl⟩

theorem holdsJson_a_b : HoldsJson overlapRecord "a.b" (.object [("x", .int 2)]) :=
  ⟨_, rfl, by decide +kernel, rfl⟩

theorem decidedByLongestKey_iff_overlap :
    overlapRecord.get? "a.b.x" = none ∧
      overlapRecord.lookup "a.b.x" = some (.number (.ofInt 2)) ∧
      DecidedByLongestKey overlapRecord "a.b.x" := by
  have h : overlapRecord.get? "a.b.x" = none := rfl
  have hcuts : Cuts "a.b.x" "a.b" ["x"] := ⟨by decide, by simp, by decide⟩
  have hlongest := isLongestKey_of_last_dot hcuts holdsJson_a_b (by decide)
  have hwalk : Json.Walk (.object [("x", .int 2)]) ["x"] (.int 2) :=
    .step (.member (by simp)) (.done _)
  have hplain : ∀ step ∈ ["x"], IsStep step := by decide
  have hdecides : DecidedByLongestKey overlapRecord "a.b.x" := by
    refine ((decidedByLongestKey_iff h).2 fun key steps j hlongest' => ?_).mpr ?_
    · obtain ⟨rfl, -⟩ := hlongest.unique hlongest'
      exact hplain
    · rintro ⟨key, steps, j, hlongest', hnowhere, -⟩
      obtain ⟨rfl, rfl⟩ := hlongest.unique hlongest'
      exact hnowhere ⟨_, hwalk⟩
  exact ⟨h, (hdecides.reaches _ _ _ hlongest _).mpr ⟨_, hwalk, rfl⟩, hdecides⟩

/-- The longest key has no such member, and the shorter one answers; a slash in a step goes one
member deeper. -/
theorem not_decidedByLongestKey_overlap :
    (overlapRecord.get? "a.b.c" = none ∧ ¬ DecidedByLongestKey overlapRecord "a.b.c") ∧
      overlapRecord.get? "a.b/c" = none ∧ ¬ DecidedByLongestKey overlapRecord "a.b/c" := by
  refine ⟨⟨rfl, fun hdecided => ?_⟩, rfl, fun hdecided => ?_⟩
  · have hcuts : Cuts "a.b.c" "a.b" ["c"] := ⟨by decide, by simp, by decide⟩
    have hlongest := isLongestKey_of_last_dot hcuts holdsJson_a_b (by decide)
    have hlookup : overlapRecord.lookup "a.b.c" = some (.number (.ofInt 1)) := by decide +kernel
    obtain ⟨target, hwalk, -⟩ := (hdecided.reaches _ _ _ hlongest _).mp hlookup
    cases hwalk with
    | step henters _ =>
      cases henters with
      | member hmember => simp at hmember
  · have hcuts : Cuts "a.b/c" "a" ["b/c"] := ⟨by decide, by simp, by decide⟩
    have hlongest := isLongestKey_of_last_dot hcuts holdsJson_a (by decide)
    have hlookup : overlapRecord.lookup "a.b/c" = some (.number (.ofInt 1)) := by decide +kernel
    obtain ⟨target, hwalk, -⟩ := (hdecided.reaches _ _ _ hlongest _).mp hlookup
    cases hwalk with
    | step henters _ =>
      cases henters with
      | member hmember => simp at hmember

end DecisionTables.FactRecord
