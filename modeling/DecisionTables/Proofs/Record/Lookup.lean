import DecisionTables.Record
import DecisionTables.Proofs.Json.Places
import Mathlib

/-!
# Looking up facts by path

A path is tried as a whole and then cut at each of its dots, from the last one to the first. Main
statement: in a record that was read from JSON, the path of a member and of steps into its value
names what walking along the steps reaches, although the value is kept as text; and if they lead
nowhere, nothing else takes its place.
-/
namespace DecisionTables
open Text

def dotted (key : String) (steps : List String) : String := String.intercalate "." (key :: steps)

/-- A step that a path writes as it is: nothing in it separates steps or escapes a character. -/
structure IsStep (step : String) : Prop where
  dot : '.' ∉ step.toList
  slash : '/' ∉ step.toList
  tilde : '~' ∉ step.toList

instance : DecidablePred IsStep := fun step =>
  decidable_of_iff ('.' ∉ step.toList ∧ '/' ∉ step.toList ∧ '~' ∉ step.toList)
    ⟨fun h => ⟨h.1, h.2.1, h.2.2⟩, fun h => ⟨h.dot, h.slash, h.tilde⟩⟩

def innerPath (steps : List String) : List Char := ['.'].intercalate (steps.map String.toList)

variable {key : String} {steps : List String}

theorem toList_dotted (h : steps ≠ []) :
    (dotted key steps).toList = key.toList ++ '.' :: innerPath steps := by
  obtain ⟨step, rest, rfl⟩ := List.exists_cons_of_ne_nil h
  rw [dotted, String.toList_intercalate, List.map_cons, List.map_cons, List.intercalate_cons_cons,
    List.append_assoc]
  rfl

theorem innerPath_cons (step : String) (h : steps ≠ []) :
    innerPath (step :: steps) = step.toList ++ '.' :: innerPath steps := by
  obtain ⟨step', rest, rfl⟩ := List.exists_cons_of_ne_nil h
  rw [innerPath, List.map_cons, List.map_cons, List.intercalate_cons_cons, List.append_assoc]
  rfl

theorem splitOn_innerPath (hdot : ∀ step ∈ steps, '.' ∉ step.toList) (hne : steps ≠ []) :
    (innerPath steps).splitOn '.' = steps.map String.toList := by
  apply List.splitOn_intercalate
  · intro piece hpiece
    obtain ⟨step, hstep, rfl⟩ := List.mem_map.mp hpiece
    exact hdot step hstep
  · simpa using hne

/-- What a path has before one of its inner dots is the path of fewer steps. -/
theorem exists_of_innerPath_eq {front rest : List Char} (hsteps : ∀ step ∈ steps, IsStep step)
    (hne : steps ≠ []) (h : innerPath steps = front ++ '.' :: rest) :
    ∃ taken, taken <+: steps ∧ taken ≠ [] ∧ innerPath taken = front := by
  have hsplit := splitOn_innerPath (fun step hstep => (hsteps step hstep).dot) hne
  have hcut : (innerPath steps).splitOn '.' = front.splitOn '.' ++ rest.splitOn '.' := by
    rw [h]
    exact List.splitOnP_append_cons _ _ (by simp)
  have hpieces : front.splitOn '.' <+: steps.map String.toList := ⟨_, hcut.symm.trans hsplit⟩
  obtain ⟨taken, htaken, heq⟩ := List.prefix_map_iff.mp hpieces
  refine ⟨taken, htaken, ?_, ?_⟩
  · rintro rfl
    exact List.splitOn_ne_nil '.' front heq
  · rw [innerPath, ← heq, List.intercalate_splitOn]

namespace FactRecord

/-- The cuts of a path behind one of its dots, at this dot, and before it. -/
theorem splitsAtDots_append (key inner : List Char) :
    splitsAtDots (key ++ '.' :: inner) =
      (splitsAtDots inner).map (fun (front, rest) => (key ++ '.' :: front, rest)) ++
        (key, inner) ::
          (splitsAtDots key).map fun (front, rest) => (front, rest ++ '.' :: inner) := by
  induction key with
  | nil => simp [splitsAtDots]
  | cons c key ih =>
    simp only [List.cons_append, splitsAtDots, ih, List.map_append, List.map_map, List.map_cons,
      List.append_assoc]
    split_ifs <;> rfl

theorem splitsAtDots_eq_nil {path : List Char} (h : '.' ∉ path) : splitsAtDots path = [] := by
  induction path with
  | nil => rfl
  | cons c path ih =>
    rw [List.mem_cons, not_or] at h
    simp [splitsAtDots, ih h.2, Ne.symm h.1]

theorem eq_of_mem_splitsAtDots {front rest path : List Char}
    (h : (front, rest) ∈ splitsAtDots path) : path = front ++ '.' :: rest := by
  induction path generalizing front with
  | nil => cases h
  | cons c path ih =>
    rw [splitsAtDots, List.mem_append] at h
    rcases h with h | h
    · obtain ⟨⟨front', rest'⟩, hmem, heq⟩ := List.mem_map.mp h
      cases heq
      rw [ih hmem, List.cons_append]
    · split_ifs at h with hdot
      · cases List.mem_singleton.mp h
        rw [hdot]
        rfl
      · cases h

def stepsIn (step : String) : List String :=
  (step.toList.splitOn '/').map fun part => String.ofList (Json.unescapeStep part)

theorem unescapeStep_eq_self {step : List Char} (h : '~' ∉ step) :
    Json.unescapeStep step = step := by
  fun_induction Json.unescapeStep step <;> simp_all

theorem stepsIn_eq_self {step : String} (h : IsStep step) : stepsIn step = [step] := by
  have hparts : step.toList.splitOn '/' = [step.toList] :=
    List.splitOnP_eq_singleton fun c hc => beq_eq_false_iff_ne.mpr fun heq => h.slash (heq ▸ hc)
  rw [stepsIn, hparts, List.map_singleton, unescapeStep_eq_self h.tilde, String.ofList_toList]

theorem flatMap_stepsIn (h : ∀ step ∈ steps, IsStep step) : steps.flatMap stepsIn = steps := by
  induction steps with
  | nil => rfl
  | cons step rest ih =>
    obtain ⟨hstep, hrest⟩ := List.forall_mem_cons.mp h
    rw [List.flatMap_cons, stepsIn_eq_self hstep, ih hrest, List.singleton_append]

theorem stepsOf_of_not_mem {step : String} (h : '.' ∉ step.toList) :
    stepsOf step.toList = (stepsIn step).map String.toList := by
  have hparts : step.toList.splitOnP (fun c => c = '.' || c = '/') = step.toList.splitOn '/' := by
    generalize step.toList = chars at h
    induction chars with
    | nil => rfl
    | cons c chars ih =>
      obtain ⟨hc, hchars⟩ := not_or.mp (mt List.mem_cons.mpr h)
      have hrest := ih hchars
      rw [List.splitOn] at hrest
      simp [List.splitOn, List.splitOnP_cons_eq_if_modifyHead, hrest, Ne.symm hc]
  rw [stepsOf, stepsIn, hparts, List.map_map]
  exact List.map_congr_left fun part _ => (String.toList_ofList).symm

theorem stepsOf_innerPath (hdot : ∀ step ∈ steps, '.' ∉ step.toList) (hne : steps ≠ []) :
    stepsOf (innerPath steps) = (steps.flatMap stepsIn).map String.toList := by
  induction steps with
  | nil => exact absurd rfl hne
  | cons step rest ih =>
    obtain ⟨hstep, hrest⟩ := List.forall_mem_cons.mp hdot
    by_cases hnil : rest = []
    · subst hnil
      simpa [innerPath] using stepsOf_of_not_mem hstep
    · have hcut : stepsOf (step.toList ++ '.' :: innerPath rest) =
          stepsOf step.toList ++ stepsOf (innerPath rest) := by
        rw [stepsOf, List.splitOnP_append_cons _ _ (by rfl), List.map_append]
        rfl
      rw [innerPath_cons step hnil, hcut, stepsOf_of_not_mem hstep, ih hrest hnil,
        List.flatMap_cons, List.map_append]

variable {text : String} {record : FactRecord} {members : List (String × Json)} {j : Json}

theorem nested?_eq_none (inner : List Char) (h : record.get? key = none) :
    nested? record key.toList inner = none := by
  simp only [nested?, String.ofList_toList, h]

theorem nested?_text (inner : List Char) (hj : Json.Readable Json.depthLimit j)
    (h : record.get? key = some (.string j.toText)) :
    nested? record key.toList inner = (j.at? (stepsOf inner)).map Value.ofJson := by
  simp only [nested?, String.ofList_toList, h, hj.ofText_own_text]

/-- Where no key goes further along the path, the steps into the key's value count first, and the
shorter keys only after them. -/
theorem lookup_dotted_eq_or (hj : Json.Readable Json.depthLimit j)
    (hkey : record.get? key = some (.string j.toText)) (hsteps : ∀ step ∈ steps, IsStep step)
    (hne : steps ≠ [])
    (hfree : ∀ taken, taken <+: steps → taken ≠ [] → record.get? (dotted key taken) = none) :
    record.lookup (dotted key steps) =
      ((j.at? (steps.map String.toList)).map Value.ofJson).or
        ((splitsAtDots key.toList).findSome? fun (front, rest) =>
          nested? record front (rest ++ '.' :: innerPath steps)) := by
  have hpath := hfree steps (List.prefix_refl steps) hne
  have hlonger : ((splitsAtDots (innerPath steps)).map fun (front, rest) =>
      (key.toList ++ '.' :: front, rest)).findSome?
        (fun (front, rest) => nested? record front rest) = none := by
    rw [List.findSome?_eq_none_iff]
    intro cut hcut
    obtain ⟨⟨front, rest⟩, hmem, rfl⟩ := List.mem_map.mp hcut
    obtain ⟨taken, htaken, htakenNe, hfront⟩ :=
      exists_of_innerPath_eq hsteps hne (eq_of_mem_splitsAtDots hmem)
    have hnone := hfree taken htaken htakenNe
    have hcut := nested?_eq_none rest hnone
    rwa [toList_dotted htakenNe, hfront] at hcut
  have hhere := nested?_text (innerPath steps) hj hkey
  rw [stepsOf_innerPath (fun step hstep => (hsteps step hstep).dot) hne,
    flatMap_stepsIn hsteps] at hhere
  unfold lookup
  rw [hpath]
  dsimp only
  rw [toList_dotted hne, splitsAtDots_append, List.findSome?_append, hlonger, Option.none_or,
    List.findSome?_cons, List.findSome?_map, hhere]
  cases j.at? (steps.map String.toList) <;> rfl

theorem exists_of_ofText_eq_ok (h : ofText text = .ok record) :
    ∃ members, Json.ofText text = .ok (.object members) ∧
      record = (Fields.ofList members).map Value.ofJson := by
  unfold ofText at h
  split at h
  case h_1 => cases h
  case h_2 j hj =>
    split at h
    case h_1 => cases h
    case h_2 record' hrecord =>
      cases h
      cases j with
      | object members =>
        cases hrecord
        exact ⟨members, hj, rfl⟩
      | _ => cases hrecord

theorem readable_members (h : Json.Readable Json.depthLimit (.object members)) :
    Fields.Sorted members ∧ ∀ m ∈ members, Json.Readable Json.depthLimit m.2 := by
  cases h with
  | object hsorted hmembers =>
    exact ⟨hsorted, fun m hm => (hmembers m hm).mono (Nat.le_succ _)⟩

theorem get?_members (h : Fields.Sorted members) (name : String) :
    ((Fields.ofList members).map Value.ofJson).get? name =
      (members.lookup name).map Value.ofJson := by
  rw [Fields.get?_map, Fields.get?_ofList (Fields.nodup_of_sorted h)]

theorem ofJson_of_isContainer (h : j.isContainer = true) : Value.ofJson j = .string j.toText := by
  cases j with
  | array items => rfl
  | object members => rfl
  | _ => cases h

/-- A path into a member of a record that was read names what walking into the member's value
reaches. Where the walk ends early, the path names nothing, unless a shorter key is looked into. -/
theorem lookup_dotted (h : ofText text = .ok record) :
    ∃ members, Json.ofText text = .ok (.object members) ∧
      ∀ key j steps, (key, j) ∈ members → j.isContainer = true → steps ≠ [] →
        (∀ step ∈ steps, IsStep step) →
        (∀ taken, taken <+: steps → taken ≠ [] → dotted key taken ∉ members.map Prod.fst) →
        (∀ target, Json.Walk j steps target →
          record.lookup (dotted key steps) = some (.ofJson target)) ∧
        ((¬ ∃ target, Json.Walk j steps target) → '.' ∉ key.toList →
          record.lookup (dotted key steps) = none) := by
  obtain ⟨members, hmembers, rfl⟩ := exists_of_ofText_eq_ok h
  refine ⟨members, hmembers, fun key j steps hmem hcontainer hne hsteps hfree => ?_⟩
  obtain ⟨hsorted, hreadable⟩ := readable_members (Json.readable_of_ofText hmembers)
  have hj := hreadable _ hmem
  have hlookup := (Fields.lookup_eq_some_iff_mem (Fields.nodup_of_sorted hsorted)).mpr hmem
  have hkey : ((Fields.ofList members).map Value.ofJson).get? key = some (.string j.toText) := by
    rw [get?_members hsorted, hlookup, Option.map_some, ofJson_of_isContainer hcontainer]
  have hfacts : ∀ taken, taken <+: steps → taken ≠ [] →
      ((Fields.ofList members).map Value.ofJson).get? (dotted key taken) = none := by
    intro taken htaken htakenNe
    rw [get?_members hsorted, Option.map_eq_none_iff, List.lookup_eq_none_iff]
    intro m hm
    have hname : dotted key taken ≠ m.1 := fun heq =>
      hfree taken htaken htakenNe (List.mem_map.mpr ⟨m, hm, heq.symm⟩)
    simpa using hname
  have hlookup := lookup_dotted_eq_or hj hkey hsteps hne hfacts
  constructor
  · intro target hwalk
    rw [hlookup, hj.at?_eq_some_iff.mpr hwalk]
    rfl
  · intro hstuck hdot
    have hnone : j.at? (steps.map String.toList) = none := by
      rw [Option.eq_none_iff_forall_not_mem]
      intro target htarget
      exact hstuck ⟨target, hj.at?_eq_some_iff.mp htarget⟩
    rw [hlookup, hnone, splitsAtDots_eq_nil hdot]
    rfl

/-- An order with nested lines, and a key that goes on with a dot. -/
def orderText : String :=
  "\x7b\"order\":\x7b\"lines\":[\x7b\"price\":10\x7d,null]\x7d,\"order.total\":[3]\x7d"

def orderLines : Json := .array [.object [("price", .int 10)], .null]

def orderMembers : List (String × Json) :=
  [("order", .object [("lines", orderLines)]), ("order.total", .array [.int 3])]

def orderRecord : FactRecord :=
  .ofList [("order", .string "\x7b\"lines\":[\x7b\"price\":10\x7d,null]\x7d"),
    ("order.total", .string "[3]")]

theorem walk_price :
    Json.Walk (.object [("lines", orderLines)]) ["lines", "0", "price"] (.int 10) := by
  have hline : Json.Enters orderLines "0" (.object [("price", .int 10)]) :=
    .item (i := 0) rfl (by decide)
  exact .step (.member (by simp)) (.step hline (.step (.member (by simp)) (.done _)))

theorem lookup_dotted_order :
    ofText orderText = .ok orderRecord ∧
      orderRecord.lookup "order.lines.0.price" = some (.number (.ofInt 10)) ∧
      orderRecord.lookup "order.sum" = none := by
  have h : ofText orderText = .ok orderRecord := by decide +kernel
  have hread : Json.ofText orderText = .ok (.object orderMembers) := by decide +kernel
  obtain ⟨members, hmembers, hpaths⟩ := lookup_dotted h
  obtain rfl : orderMembers = members := by
    rw [hread] at hmembers
    cases hmembers
    rfl
  have hprice : ∀ taken ∈ ["lines", "0", "price"].inits, taken ≠ [] →
      dotted "order" taken ∉ orderMembers.map Prod.fst := by decide
  have hsum : ∀ taken ∈ ["sum"].inits, taken ≠ [] →
      dotted "order" taken ∉ orderMembers.map Prod.fst := by decide
  have hfound := (hpaths "order" _ ["lines", "0", "price"] (List.mem_cons_self) rfl (by simp)
    (by decide) fun taken htaken => hprice taken ((List.mem_inits _ _).mpr htaken)).1 _ walk_price
  have hmissing := (hpaths "order" _ ["sum"] (List.mem_cons_self) rfl (by simp) (by decide)
    fun taken htaken => hsum taken ((List.mem_inits _ _).mpr htaken)).2
  refine ⟨h, hfound, hmissing ?_ (by decide)⟩
  rintro ⟨target, hwalk⟩
  cases hwalk with
  | step henters _ =>
    cases henters with
    | member hmember => simp at hmember

end FactRecord
end DecisionTables
