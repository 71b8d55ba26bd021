/-!
# White space and words

The characters with the Unicode property `White_Space`, and trimming by them. The zero-width space
U+200B and the byte order mark U+FEFF are not among them. Main statements: trimming changes no text
that has white space at neither end, and a word is taken off a text exactly if the text starts with
it.
-/
namespace DecisionTables.Text

/-- The code points with the property `White_Space`, in order. -/
def spaceCodes : List Nat :=
  [0x09, 0x0A, 0x0B, 0x0C, 0x0D, 0x20, 0x85, 0xA0, 0x1680, 0x2000, 0x2001, 0x2002, 0x2003, 0x2004,
    0x2005, 0x2006, 0x2007, 0x2008, 0x2009, 0x200A, 0x2028, 0x2029, 0x202F, 0x205F, 0x3000]

def isSpace (c : Char) : Bool := spaceCodes.contains c.toNat

def trimLeft (text : List Char) : List Char := text.dropWhile isSpace

def trimRight (text : List Char) : List Char := (text.reverse.dropWhile isSpace).reverse

def trim (text : List Char) : List Char := trimRight (trimLeft text)

def isBlank (text : List Char) : Bool := text.all isSpace

theorem trimLeft_eq_self {text : List Char} (h : ∀ c ∈ text.head?, isSpace c = false) :
    trimLeft text = text := by
  cases text with
  | nil => rfl
  | cons c rest => simp [trimLeft, List.dropWhile, h c (by simp)]

theorem trimRight_eq_self {text : List Char} (h : ∀ c ∈ text.getLast?, isSpace c = false) :
    trimRight text = text := by
  unfold trimRight
  rw [show text.reverse.dropWhile isSpace = trimLeft text.reverse from rfl, trimLeft_eq_self]
  · exact List.reverse_reverse text
  · simpa using h

theorem trim_eq_self {text : List Char} (hHead : ∀ c ∈ text.head?, isSpace c = false)
    (hLast : ∀ c ∈ text.getLast?, isSpace c = false) : trim text = text := by
  rw [trim, trimLeft_eq_self hHead, trimRight_eq_self hLast]

/-- What follows a word that a text starts with. -/
def after? : List Char → List Char → Option (List Char)
  | [], rest => some rest
  | _ :: _, [] => none
  | c :: word, d :: rest => if c = d then after? word rest else none

theorem after?_eq_some_iff {word text rest : List Char} :
    after? word text = some rest ↔ text = word ++ rest := by
  induction word generalizing text with
  | nil => simp [after?, eq_comm]
  | cons c word ih =>
    cases text with
    | nil => simp [after?]
    | cons d text =>
      by_cases h : c = d
      · subst h; simp [after?, ih]
      · simp [after?, h, Ne.symm h]

end DecisionTables.Text
