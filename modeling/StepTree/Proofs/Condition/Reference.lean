import StepTree.Proofs.Placeholders

/-! # References

An operand can be nothing but a path: between the braces of a placeholder, or bare. It then stands for what the path
leads to, and a loop source or a count that is such a reference is decided by that value alone. -/

namespace StepTree

namespace Template.Slot
variable (p : Slot)

theorem tight_text : Text.Tight p.text where
  head := ⟨'\x7b', '\x7b' :: (p.inner ++ ['\x7d', '\x7d']), rfl, rfl⟩
  last := ⟨'\x7b' :: '\x7b' :: (p.inner ++ ['\x7d']), '\x7d', by simp [text, written], rfl⟩

theorem single?_text : single? p.text = some p.path := by
  have hread := Condition.placeholder?_written p.inner_unbraced []
  rw [List.append_nil] at hread
  rw [single?, p.tight_text.trim, text, hread]
  exact congrArg some p.trim_inner

end Template.Slot

namespace Condition

open Template (Lookup Slot)

/-! ### Values that an expression has to have -/

/-- The items of a value, or of the array that a text is. -/
def items? : Json → Option (List Json)
  | .arr items => some items
  | .str text =>
    match Json.ofString? text with
    | some (.arr items) => some items
    | _ => none
  | _ => none

/-- What is asked of the value of an operand; a value that does not have it is refused. -/
def demand {α : Type} (ask : Json → Option α) (refuse : String → String → EvalError) (lookup : Lookup)
    (s : List Char) : Except EvalError α :=
  if s.isEmpty then .error .empty
  else do
    let v ← (← operand lookup s).get
    match ask v with
    | some a => .ok a
    | none => .error (refuse (String.ofList s) (describe v))

theorem evalArray_eq (lookup : Lookup) (expression : String) :
    evalArray lookup expression = demand items? .notAnArray lookup (Text.trim expression.toList) := by
  unfold evalArray demand
  dsimp only
  split
  · rfl
  · refine bind_congr fun o => bind_congr fun v => ?_
    cases v with
    | str text =>
      rw [items?]
      dsimp only
      split <;> simp_all
    | _ => rfl

theorem evalCount_eq (lookup : Lookup) (expression : String) :
    evalCount lookup expression = demand count? .invalidCount lookup (Text.trim expression.toList) := by
  unfold evalCount demand
  dsimp only
  split
  · rfl
  · refine bind_congr fun o => bind_congr fun v => ?_
    cases count? v <;> rfl

section
variable {α : Type} {ask : Json → Option α} {refuse : String → String → EvalError} {lookup : Lookup} {s : List Char}
  {v : Json}

theorem demand_of_value (ne_nil : s ≠ []) (stands : operand lookup s = .ok (.value v)) :
    demand ask refuse lookup s =
      match ask v with
      | some a => .ok a
      | none => .error (refuse (String.ofList s) (describe v)) := by
  rw [demand, List.isEmpty_eq_false_iff.mpr ne_nil, if_neg Bool.false_ne_true, stands]
  rfl

end

/-! ### References -/

theorem beginsLikeLiteral_of_isPath {path : List Char} (h : isPath path = true) : beginsLikeLiteral path = false := by
  cases path with
  | nil => rfl
  | cons c rest =>
    rw [isPath, Bool.and_eq_true] at h
    simp [beginsLikeLiteral, notDigit_of_letter h.1, letter_ne h.1 (d := '-') rfl, letter_ne h.1 (d := '[') rfl,
      letter_ne h.1 (d := '\x7b') rfl]

/-- The text is a path as a whole operand. -/
inductive Refers : (path text : List Char) → Prop
  | placeholder (p : Slot) : Refers p.path p.text
  | bare {path : List Char} (isPath : Condition.isPath path = true) (free : literal? path = none) : Refers path path

namespace Refers
variable {lookup : Lookup} {path text : List Char} {v : Json}

theorem tight (h : Refers path text) : Text.Tight text := by
  cases h with
  | placeholder p => exact p.tight_text
  | bare isPath => exact (IsWord.of_isPath isPath).clear.tight

theorem trim_path (h : Refers path text) : Text.trim path = path := by
  cases h with
  | placeholder p => exact p.trimmed
  | bare isPath => exact (IsWord.of_isPath isPath).clear.tight.trim

/-- A reference stands for what its path leads to. -/
theorem operand (h : Refers path text) : Condition.operand lookup text = .ok (ofPath lookup path) := by
  cases h with
  | placeholder p =>
    unfold Condition.operand
    rw [p.tight_text.trim]
    dsimp only
    rw [List.isEmpty_eq_false_iff.mpr p.tight_text.ne_nil, p.single?_text]
    rfl
  | bare isPath free =>
    rw [operand_word lookup (.of_isPath isPath), free]
    dsimp only
    rw [beginsLikeLiteral_of_isPath isPath, isPath]
    rfl

theorem operand_of_selects (h : Refers path text) (selects : lookup path = some v) :
    Condition.operand lookup text = .ok (.value v) := by
  rw [h.operand, ofPath, selects]

/-- A loop source that is a reference goes over the items of what the path leads to. -/
theorem evalArray_of_items {items : List Json} (h : Refers path text) (selects : lookup path = some v)
    (hitems : items? v = some items) : evalArray lookup (String.ofList text) = .ok items := by
  rw [evalArray_eq, String.toList_ofList, h.tight.trim,
    demand_of_value h.tight.ne_nil (h.operand_of_selects selects), hitems]

end Refers

end Condition

end StepTree
