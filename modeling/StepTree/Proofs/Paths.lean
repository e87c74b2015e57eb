import StepTree.Json.Path
import StepTree.Proofs.Condition.Scan

/-! # The first name of a path

A path is split at its dots, and each segment at its brackets. So the text before the first dot or bracket is the key
that is followed first, and the rest is a path of its own, where a dot at the beginning does not count. A path that
begins with a bracket begins with an index. The rest need not be well formed: where it is refused, so is the whole. -/

namespace StepTree

/-! ### Splitting -/

namespace Text
variable {sep : Char} {a s piece : List Char} {pieces : List (List Char)}

theorem trim_of_unblanked (h : ∀ c ∈ s, isBlank c = false) : trim s = s := by
  rcases List.eq_nil_or_concat s with rfl | ⟨init, d, hs⟩
  · rfl
  · obtain ⟨c, rest, hcons⟩ := List.exists_cons_of_ne_nil (l := s) (by simp [hs])
    exact Tight.trim ⟨⟨c, rest, hcons, h c (by simp [hcons])⟩, ⟨init, d, by simp [hs], h d (by simp [hs])⟩⟩

theorem exists_split (sep : Char) (s : List Char) : ∃ piece pieces, split sep s = piece :: pieces :=
  List.exists_cons_of_ne_nil (split_ne_nil sep s)

@[simp] theorem split_sep (sep : Char) (s : List Char) : split sep (sep :: s) = [] :: split sep s := by simp [split]

/-- A text without the separator is put before the first piece. -/
theorem split_append (free : sep ∉ a) (h : split sep s = piece :: pieces) :
    split sep (a ++ s) = (a ++ piece) :: pieces := by
  induction a with
  | nil => exact h
  | cons c a ih =>
    simp only [List.mem_cons, not_or] at free
    simp only [List.cons_append, split, if_neg (Ne.symm free.1), ih free.2]

end Text

/-! ### Parsing -/

namespace Path
variable {name rest s : List Char} {brackets : List (List Char)} {a : Access} {steps : List Access}

theorem index?_eq_some (h : index? s = some a) : ∃ n, a = .index n := by
  unfold index? at h
  split at h
  · obtain ⟨n, -, rfl⟩ := Option.map_eq_some_iff.mp h
    exact ⟨n, rfl⟩
  · cases h

theorem segment?_of_split (h : Text.split '[' s = name :: brackets) :
    segment? s = (brackets.mapM index?).map fun indices => if name.isEmpty then indices else .key name :: indices := by
  unfold segment?
  rw [h]
  dsimp only
  cases brackets.mapM index? <;> rfl

@[simp] theorem segment?_nil : segment? [] = some [] := rfl

/-- The steps of a segment without a key begin with an index. -/
theorem segment?_bracket (h : segment? ('[' :: s) = some steps) : ∃ n more, steps = .index n :: more := by
  obtain ⟨inner, brackets, hs⟩ := Text.exists_split '[' s
  have hsplit : Text.split '[' ('[' :: s) = [] :: inner :: brackets := by rw [Text.split_sep, hs]
  rw [segment?_of_split hsplit, List.mapM_cons] at h
  obtain ⟨indices, hindices, rfl⟩ := Option.map_eq_some_iff.mp h
  obtain ⟨first, hfirst, hrest⟩ := Option.bind_eq_some_iff.mp hindices
  obtain ⟨more, -, hcons⟩ := Option.bind_eq_some_iff.mp hrest
  obtain ⟨n, rfl⟩ := index?_eq_some hfirst
  cases hcons
  exact ⟨n, more, rfl⟩

theorem parse?_of_unblanked (h : ∀ c ∈ s, Text.isBlank c = false) :
    parse? s = ((Text.split '.' s).mapM segment?).map List.flatten := by
  rw [parse?, Text.trim_of_unblanked h]
  cases (Text.split '.' s).mapM segment? <;> rfl

/-- A path without blanks, taken apart before its first dot or bracket. -/
structure Parted (name rest : List Char) : Prop where
  unblanked : ∀ c ∈ name ++ rest, Text.isBlank c = false
  plain : ∀ c ∈ name, c ≠ '.' ∧ c ≠ '['
  ends : rest = [] ∨ (∃ s, rest = '.' :: s) ∨ ∃ s, rest = '[' :: s

namespace Parted

theorem exists_parts (h : ∀ c ∈ s, Text.isBlank c = false) : ∃ name rest, s = name ++ rest ∧ Parted name rest := by
  let isPlain : Char → Bool := fun c => c != '.' && c != '['
  have hparts : s.takeWhile isPlain ++ s.dropWhile isPlain = s := List.takeWhile_append_dropWhile
  refine ⟨_, _, hparts.symm, hparts.symm ▸ h, fun c hc => ?_, ?_⟩
  · simpa [isPlain] using List.all_eq_true.mp List.all_takeWhile c hc
  · rcases hrest : s.dropWhile isPlain with _ | ⟨c, s'⟩
    · exact Or.inl rfl
    · have hend := List.head_dropWhile_not isPlain (l := s) (by simp [hrest])
      simp only [hrest, List.head_cons, isPlain, Bool.and_eq_false_iff, bne_eq_false_iff_eq] at hend
      rcases hend with rfl | rfl
      · exact Or.inr (Or.inl ⟨s', rfl⟩)
      · exact Or.inr (Or.inr ⟨s', rfl⟩)

theorem rest_unblanked (h : Parted name rest) : ∀ c ∈ rest, Text.isBlank c = false :=
  fun c hc => h.unblanked c (List.mem_append_right _ hc)

theorem takeWhile_eq (h : Parted name rest) : (name ++ rest).takeWhile (fun c => c != '.' && c != '[') = name := by
  have hrest : rest.takeWhile (fun c => c != '.' && c != '[') = [] := by
    rcases h.ends with rfl | ⟨s, rfl⟩ | ⟨s, rfl⟩ <;> rfl
  rw [List.takeWhile_append_of_pos fun c hc => by simp [h.plain c hc], hrest, List.append_nil]

/-- The first segment of the rest is empty, or it begins with a bracket. -/
theorem exists_brackets (h : Parted name rest) :
    ∃ piece pieces brackets, Text.split '.' rest = piece :: pieces ∧ Text.split '[' piece = [] :: brackets := by
  rcases h.ends with rfl | ⟨s, rfl⟩ | ⟨s, rfl⟩
  · exact ⟨[], [], [], rfl, rfl⟩
  · exact ⟨[], _, [], Text.split_sep '.' s, rfl⟩
  · obtain ⟨piece, pieces, hs⟩ := Text.exists_split '.' s
    have hfree : '.' ∉ ['['] := by simp
    exact ⟨'[' :: piece, pieces, _, Text.split_append hfree hs, Text.split_sep '[' piece⟩

/-- A name is the key that is followed first. -/
theorem parse?_append (h : Parted name rest) (ne_nil : name ≠ []) :
    parse? (name ++ rest) = (parse? rest).map (.key name :: ·) := by
  obtain ⟨piece, pieces, brackets, hsplit, hpiece⟩ := h.exists_brackets
  have hdot : '.' ∉ name := fun hmem => (h.plain _ hmem).1 rfl
  have hbracket : '[' ∉ name := fun hmem => (h.plain _ hmem).2 rfl
  -- The name ends within the first segment, before the first bracket of it.
  have hfirst : segment? (name ++ piece) = (segment? piece).map (.key name :: ·) := by
    rw [segment?_of_split (Text.split_append hbracket hpiece), segment?_of_split hpiece, Option.map_map]
    simp [Function.comp_def, ne_nil]
  rw [parse?_of_unblanked h.unblanked, parse?_of_unblanked h.rest_unblanked, Text.split_append hdot hsplit, hsplit,
    List.mapM_cons, List.mapM_cons, hfirst]
  cases segment? piece <;> cases pieces.mapM segment? <;> rfl

end Parted

/-- A dot at the beginning of a path does not count. -/
theorem parse?_dot (h : ∀ c ∈ s, Text.isBlank c = false) : parse? ('.' :: s) = parse? s := by
  have hdot : ∀ c ∈ '.' :: s, Text.isBlank c = false := List.forall_mem_cons.mpr ⟨rfl, h⟩
  rw [parse?_of_unblanked hdot, parse?_of_unblanked h, Text.split_sep, List.mapM_cons, segment?_nil]
  cases (Text.split '.' s).mapM segment? <;> rfl

/-- A path that begins with a bracket begins with an index, if it is well formed. -/
theorem parse?_bracket (h : ∀ c ∈ s, Text.isBlank c = false) (parsed : parse? ('[' :: s) = some steps) :
    ∃ n more, steps = .index n :: more := by
  have hbracket : ∀ c ∈ '[' :: s, Text.isBlank c = false := List.forall_mem_cons.mpr ⟨rfl, h⟩
  have hfree : '.' ∉ ['['] := by simp
  obtain ⟨piece, pieces, hs⟩ := Text.exists_split '.' s
  have hsplit : Text.split '.' ('[' :: s) = ('[' :: piece) :: pieces := Text.split_append hfree hs
  rw [parse?_of_unblanked hbracket, hsplit, List.mapM_cons] at parsed
  obtain ⟨segments, hsegments, rfl⟩ := Option.map_eq_some_iff.mp parsed
  obtain ⟨first, hfirst, hrest⟩ := Option.bind_eq_some_iff.mp hsegments
  obtain ⟨others, -, hcons⟩ := Option.bind_eq_some_iff.mp hrest
  obtain ⟨n, more, rfl⟩ := segment?_bracket hfirst
  cases hcons
  exact ⟨n, _, rfl⟩

end Path

/-! ### Selecting -/

namespace Json
variable {name rest s : List Char}

/-- What a path selects is selected by its rest from what its name selects. -/
theorem select?_append (h : Path.Parted name rest) (ne_nil : name ≠ []) (value : Json) :
    value.select? (name ++ rest) = (value.access? (.key name)).bind fun inner => inner.select? rest := by
  unfold select?
  rw [h.parse?_append ne_nil]
  cases Path.parse? rest with
  | none => cases value.access? (.key name) <;> rfl
  | some steps => rfl

theorem select?_dot (h : ∀ c ∈ s, Text.isBlank c = false) (value : Json) :
    value.select? ('.' :: s) = value.select? s := by
  rw [select?, Path.parse?_dot h]
  rfl

/-- Nothing is selected from an object by an index. -/
theorem select?_bracket (h : ∀ c ∈ s, Text.isBlank c = false) (entries : List (String × Json)) :
    (obj entries).select? ('[' :: s) = none := by
  unfold select?
  cases hparsed : Path.parse? ('[' :: s) with
  | none => rfl
  | some steps =>
    obtain ⟨n, more, rfl⟩ := Path.parse?_bracket h hparsed
    rfl

end Json

end StepTree
