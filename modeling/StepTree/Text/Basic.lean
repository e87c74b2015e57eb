/-! # Text as a list of characters

Templates, conditions and documents are scanned as lists of characters. This file holds what every
scanner needs: blank characters, trimming, splitting and searching. -/

namespace StepTree.Text

/-- The characters with the Unicode property `White_Space`. -/
def isBlank (c : Char) : Bool :=
  let n := c.toNat
  (9 ≤ n && n ≤ 13) || n == 0x20 || n == 0x85 || n == 0xA0 || n == 0x1680 ||
    (0x2000 ≤ n && n ≤ 0x200A) || n == 0x2028 || n == 0x2029 || n == 0x202F || n == 0x205F || n == 0x3000

def trimStart (s : List Char) : List Char := s.dropWhile isBlank

def trimEnd (s : List Char) : List Char := (s.reverse.dropWhile isBlank).reverse

/-- The text without the blanks at its two ends. -/
def trim (s : List Char) : List Char := trimEnd (trimStart s)

/-- The text without the blanks at its two ends. -/
def trimmed (s : String) : String := String.ofList (trim s.toList)

/-- Nothing but blanks. -/
def allBlank (s : String) : Bool := s.toList.all isBlank

/-- The pieces between the occurrences of `sep`; there is always at least one. -/
def split (sep : Char) : List Char → List (List Char)
  | [] => [[]]
  | c :: rest =>
    if c = sep then [] :: split sep rest
    else match split sep rest with
      | [] => [[c]]
      | piece :: pieces => (c :: piece) :: pieces

/-- What follows `lead` in a text that starts with it. -/
def after? : (lead : List Char) → List Char → Option (List Char)
  | [], s => some s
  | _ :: _, [] => none
  | l :: lead, c :: s => if l = c then after? lead s else none

/-- What comes before `tail` in a text that ends with it. -/
def before? (tail s : List Char) : Option (List Char) :=
  (after? tail.reverse s.reverse).map List.reverse

/-- `part` occurs somewhere in the text. -/
def occursIn (part : List Char) : List Char → Bool
  | [] => part.isEmpty
  | c :: rest => part.isPrefixOf (c :: rest) || occursIn part rest

/-- The number of bytes of the text in UTF-8. -/
def byteLength (s : List Char) : Nat := (s.map Char.utf8Size).foldr (· + ·) 0

/-- The longest beginning of the text that takes at most `limit` bytes in UTF-8. -/
def takeBytes : (limit : Nat) → List Char → List Char
  | _, [] => []
  | limit, c :: rest => if c.utf8Size ≤ limit then c :: takeBytes (limit - c.utf8Size) rest else []

/-- ASCII capital letters made small. -/
def lowerAscii (s : List Char) : List Char := s.map Char.toLower

/-! ### Laws -/

theorem after?_append (lead s : List Char) : after? lead (lead ++ s) = some s := by
  induction lead with
  | nil => rfl
  | cons l lead ih => simp [after?, ih]

theorem eq_append_of_after? {lead s rest : List Char} (h : after? lead s = some rest) : s = lead ++ rest := by
  induction lead generalizing s with
  | nil => simpa [after?] using h
  | cons l lead ih =>
    cases s with
    | nil => simp [after?] at h
    | cons c s =>
      by_cases hc : l = c
      · simp only [after?, hc, ↓reduceIte] at h
        simp [hc, ih h]
      · simp [after?, hc] at h

theorem split_ne_nil (sep : Char) (s : List Char) : split sep s ≠ [] := by
  cases s with
  | nil => simp [split]
  | cons c s =>
    by_cases h : c = sep
    · simp [split, h]
    · simp only [split, h, ↓reduceIte]
      split <;> simp

/-- Occurring is being an infix. -/
theorem occursIn_iff {part s : List Char} : occursIn part s = true ↔ part <:+: s := by
  induction s with
  | nil => simp [occursIn]
  | cons c s ih =>
    rw [occursIn, Bool.or_eq_true, ih, List.isPrefixOf_iff_prefix, List.infix_cons_iff]

end StepTree.Text
