import DecisionTables.Text.Space
import Mathlib

/-!
# Steps of readers and runs of characters

Readers go step by step and stop at the first fault. Where a chain of steps succeeds, each of its
steps has; where it fails, one of them has after all those before it succeeded. Where a text is a
run of characters of one class followed by something else, taking and dropping the class cut it
exactly there. The same for white space: blank ends are all that trimming takes away.
-/
namespace DecisionTables

theorem exists_of_map_eq_ok {ε α β : Type} {x : Except ε α} {f : α → β} {b : β}
    (h : x.map f = .ok b) : ∃ a, x = .ok a ∧ f a = b := by
  cases x with
  | error => cases h
  | ok a => exact ⟨a, rfl, Except.ok.inj h⟩

theorem exists_of_bind_eq_ok {ε α β : Type} {x : Except ε α} {f : α → Except ε β} {b : β}
    (h : x >>= f = .ok b) : ∃ a, x = .ok a ∧ f a = .ok b := by
  cases x with
  | error => cases h
  | ok a => exact ⟨a, rfl, h⟩

theorem exists_of_bind_eq_error {ε α β : Type} {x : Except ε α} {f : α → Except ε β} {e : ε}
    (h : x >>= f = .error e) : x = .error e ∨ ∃ a, x = .ok a ∧ f a = .error e := by
  cases x with
  | error =>
    cases h
    exact .inl rfl
  | ok a => exact .inr ⟨a, rfl, h⟩

theorem eq_error_of_map_eq_error {ε α β : Type} {x : Except ε α} {f : α → β} {e : ε}
    (h : x.map f = .error e) : x = .error e := by
  cases x with
  | error =>
    cases h
    rfl
  | ok a => cases h

theorem eq_ok_of_mapError_eq_ok {ε ε' α : Type} {x : Except ε α} {f : ε → ε'} {a : α}
    (h : x.mapError f = .ok a) : x = .ok a := by
  cases x with
  | error => cases h
  | ok a' => exact congrArg Except.ok (Except.ok.inj h)

namespace Text

def StartsOutside (p : Char → Bool) (text : List Char) : Prop := ∀ c ∈ text.head?, p c = false

variable {p : Char → Bool} {run rest : List Char}

theorem StartsOutside.mono {q : Char → Bool} (h : StartsOutside p rest)
    (hpq : ∀ c, q c = true → p c = true) : StartsOutside q rest := by
  intro c hc
  have hp := h c hc
  cases hq : q c with
  | false => rfl
  | true => rw [hpq c hq] at hp; cases hp

theorem startsOutside_nil : StartsOutside p [] := fun _ hc => nomatch hc

theorem startsOutside_cons {c : Char} (hc : p c = false) : StartsOutside p (c :: rest) := by
  intro d hd
  cases hd
  exact hc

theorem startsOutside_dropWhile (p : Char → Bool) (text : List Char) :
    StartsOutside p (text.dropWhile p) := by
  intro c hc
  have h := List.head?_dropWhile_not p text
  rw [Option.mem_def.mp hc] at h
  exact h

theorem dropWhile_eq_self (h : StartsOutside p rest) : rest.dropWhile p = rest := by
  cases rest with
  | nil => rfl
  | cons c rest => simp [h c rfl]

theorem takeWhile_eq_nil (h : StartsOutside p rest) : rest.takeWhile p = [] := by
  cases rest with
  | nil => rfl
  | cons c rest => simp [h c rfl]

theorem dropWhile_run (hrun : ∀ c ∈ run, p c = true) (h : StartsOutside p rest) :
    (run ++ rest).dropWhile p = rest := by
  rw [List.dropWhile_append_of_pos hrun, dropWhile_eq_self h]

theorem takeWhile_run (hrun : ∀ c ∈ run, p c = true) (h : StartsOutside p rest) :
    (run ++ rest).takeWhile p = run := by
  rw [List.takeWhile_append_of_pos hrun, takeWhile_eq_nil h, List.append_nil]

theorem isBlank_iff {text : List Char} : isBlank text = true ↔ ∀ c ∈ text, isSpace c = true := by
  simp [isBlank]

theorem isBlank_takeWhile (text : List Char) : isBlank (text.takeWhile isSpace) = true :=
  isBlank_iff.mpr fun _ hc => List.mem_takeWhile_imp hc

/-- A class that leaves out the code points of white space leaves out white space. -/
theorem eq_false_of_isSpace {c : Char} (hp : ∀ code ∈ spaceCodes, p (Char.ofNat code) = false)
    (h : isSpace c = true) : p c = false := by
  have hcode : c.toNat ∈ spaceCodes := by simpa [isSpace] using h
  simpa using hp _ hcode

theorem takeWhile_append_trimLeft (text : List Char) :
    text.takeWhile isSpace ++ trimLeft text = text := List.takeWhile_append_dropWhile

/-- A text after white space starts outside every class that it and white space are outside of. -/
theorem StartsOutside.space_append {space : List Char} (h : StartsOutside p rest)
    (hspace : isBlank space = true) (hp : ∀ c, isSpace c = true → p c = false) :
    StartsOutside p (space ++ rest) := by
  cases space with
  | nil => exact h
  | cons d space =>
    intro c hc
    cases hc
    exact hp _ (isBlank_iff.mp hspace _ (by simp))

theorem trimLeft_run {space rest : List Char} (hspace : isBlank space = true)
    (h : StartsOutside isSpace rest) : trimLeft (space ++ rest) = rest :=
  dropWhile_run (isBlank_iff.mp hspace) h

/-- A token after white space, with more text behind it. -/
theorem trimLeft_token {space token : List Char} {c : Char} (hspace : isBlank space = true)
    (hc : isSpace c = false) (rest : List Char) :
    trimLeft (space ++ c :: token ++ rest) = c :: (token ++ rest) := by
  rw [List.append_assoc]
  exact trimLeft_run hspace (startsOutside_cons hc)

theorem trimLeft_eq_nil_iff {text : List Char} : trimLeft text = [] ↔ isBlank text = true := by
  rw [trimLeft, List.dropWhile_eq_nil_iff, isBlank_iff]

theorem trimLeft_space_append {space : List Char} (hspace : isBlank space = true)
    (text : List Char) : trimLeft (space ++ text) = trimLeft text :=
  List.dropWhile_append_of_pos (isBlank_iff.mp hspace)

theorem trimLeft_trimLeft (text : List Char) : trimLeft (trimLeft text) = trimLeft text :=
  dropWhile_eq_self (startsOutside_dropWhile isSpace text)

theorem trim_trimLeft (text : List Char) : trim (trimLeft text) = trim text := by
  rw [trim, trimLeft_trimLeft, trim]

theorem trim_space_append {space : List Char} (hspace : isBlank space = true)
    (text : List Char) : trim (space ++ text) = trim text := by
  rw [trim, trimLeft_space_append hspace, trim]

def EndsOutsideSpace (text : List Char) : Prop := ∀ c ∈ text.getLast?, isSpace c = false

theorem endsOutsideSpace_concat {text : List Char} {c : Char} (hc : isSpace c = false) :
    EndsOutsideSpace (text ++ [c]) := by
  intro d hd
  rw [List.getLast?_concat] at hd
  cases hd
  exact hc

theorem endsOutsideSpace_trimRight (text : List Char) : EndsOutsideSpace (trimRight text) := by
  intro c hc
  rw [trimRight, List.getLast?_reverse] at hc
  exact startsOutside_dropWhile isSpace _ c hc

theorem endsOutsideSpace_trim (text : List Char) : EndsOutsideSpace (trim text) :=
  endsOutsideSpace_trimRight (trimLeft text)

theorem EndsOutsideSpace.right {left right : List Char} (h : EndsOutsideSpace (left ++ right)) :
    EndsOutsideSpace right := by
  intro c hc
  refine h c ?_
  rw [Option.mem_def] at hc ⊢
  rw [List.getLast?_append, hc, Option.some_or]

theorem EndsOutsideSpace.append_left {right : List Char} (h : EndsOutsideSpace right)
    (hne : right ≠ []) (left : List Char) : EndsOutsideSpace (left ++ right) := by
  intro c hc
  rw [Option.mem_def, List.getLast?_append, List.getLast?_eq_some_getLast hne, Option.some_or] at hc
  exact h c (by rw [Option.mem_def, List.getLast?_eq_some_getLast hne, hc])

theorem EndsOutsideSpace.not_isBlank {text : List Char} (h : EndsOutsideSpace text)
    (hne : text ≠ []) : ¬ isBlank text = true := by
  intro hblank
  have hlast := isBlank_iff.mp hblank _ (List.getLast_mem hne)
  rw [h _ (List.getLast?_eq_some_getLast hne)] at hlast
  cases hlast

theorem isPrefix_trimRight (text : List Char) : trimRight text <+: text := by
  rw [← List.reverse_suffix, trimRight, List.reverse_reverse]
  exact List.dropWhile_suffix isSpace

theorem startsOutside_trim (text : List Char) : StartsOutside isSpace (trim text) := by
  intro c hc
  obtain ⟨rest, hrest⟩ := isPrefix_trimRight (trimLeft text)
  apply startsOutside_dropWhile isSpace text
  rw [← trimLeft, ← hrest]
  exact List.mem_head?_append_of_mem_head? hc

theorem trim_trim (text : List Char) : trim (trim text) = trim text :=
  trim_eq_self (startsOutside_trim text) (endsOutsideSpace_trim text)

theorem trimRight_eq_nil_iff {text : List Char} : trimRight text = [] ↔ isBlank text = true := by
  rw [trimRight, List.reverse_eq_nil_iff, List.dropWhile_eq_nil_iff, isBlank_iff]
  simp only [List.mem_reverse]

/-- White space at the end is that of the last part, unless this is blank. -/
theorem trimRight_append {left right : List Char} (h : isBlank right = false) :
    trimRight (left ++ right) = left ++ trimRight right := by
  have hne : right.reverse.dropWhile isSpace ≠ [] := by
    intro hnil
    rw [← List.reverse_eq_nil_iff, ← trimRight, trimRight_eq_nil_iff, h] at hnil
    cases hnil
  rw [trimRight, List.reverse_append, List.dropWhile_append, if_neg (by simpa using hne),
    List.reverse_append, List.reverse_reverse, trimRight]

theorem trim_append {left right : List Char} (hStart : StartsOutside isSpace (left ++ right))
    (h : isBlank right = false) : trim (left ++ right) = left ++ trimRight right := by
  rw [trim, trimLeft_eq_self hStart, trimRight_append h]

theorem isBlank_trimLeft (text : List Char) : isBlank (trimLeft text) = isBlank text := by
  have hspace : (text.takeWhile isSpace).all isSpace = true := isBlank_takeWhile text
  conv_rhs => rw [← takeWhile_append_trimLeft text, isBlank, List.all_append, hspace]
  exact (Bool.true_and _).symm

theorem trim_trimRight {text : List Char} (h : isBlank text = false) :
    trim (trimRight text) = trim text := by
  have hright : trimRight text = text.takeWhile isSpace ++ trim text := by
    conv_lhs => rw [← takeWhile_append_trimLeft text]
    rw [trimRight_append ((isBlank_trimLeft text).trans h), trim]
  rw [hright, trim_space_append (isBlank_takeWhile text), trim_trim]

theorem not_mem_of_mem_splitOn {separator : Char} {text piece : List Char}
    (h : piece ∈ text.splitOn separator) : separator ∉ piece := by
  induction text generalizing piece with
  | nil =>
    rw [List.splitOn_nil, List.mem_singleton] at h
    rw [h]
    exact List.not_mem_nil
  | cons c text ih =>
    rw [List.splitOn_cons_eq_if_modifyHead] at h
    split_ifs at h with hc
    · rcases List.mem_cons.mp h with rfl | htail
      · exact List.not_mem_nil
      · exact ih htail
    · obtain ⟨first, others, hpieces⟩ :=
        List.exists_cons_of_ne_nil (List.splitOn_ne_nil separator text)
      rw [hpieces, List.modifyHead_cons] at h
      rcases List.mem_cons.mp h with rfl | hothers
      · have hfirst := ih (hpieces ▸ List.mem_cons_self)
        have hne : separator ≠ c := fun heq => hc (by rw [heq, beq_self_eq_true])
        simp [hne, hfirst]
      · exact ih (hpieces ▸ List.mem_cons_of_mem _ hothers)

end Text
end DecisionTables
