import StepTree.Proofs.Condition.Node
import StepTree.Proofs.Condition.Reference

/-! # Failures over a string

A string is bound to a variable, and all else stays as it is. A loop source, a count or a comparison can fail over it, and
the message then describes what an operand stands for. Where that is a text, and the description has it as it is, the
message is one text with gaps, whatever the string is, and the string stands in the gaps. -/

namespace StepTree

namespace Json

/-- Only what begins with a quotation mark is read as a text. -/
theorem head_of_value?_str {fuel depth : Nat} {s rest : List Char} {w : String}
    (h : value? fuel depth s = some (.str w, rest)) : ∃ after, skipSpace s = '"' :: after := by
  cases fuel with
  | zero => cases h
  | succ fuel =>
    rw [value?] at h
    split at h
    · cases h
    · next c after hs =>
      by_cases hc : c = '"'
      · exact ⟨after, hc ▸ hs⟩
      · rw [if_neg hc] at h
        repeat' split at h
        all_goals simp at h

theorem normalize_eq_str {v : Json} {w : String} (h : v.normalize = .str w) : v = .str w := by
  cases v with
  | str s => exact h
  | _ => cases h

theorem head_of_read?_str {s : List Char} {w : String} (h : read? s = some (.str w)) :
    ∃ after, skipSpace s = '"' :: after := by
  obtain ⟨v, hv, hnormal⟩ := Option.map_eq_some_iff.mp h
  rw [normalize_eq_str hnormal, tree?] at hv
  obtain ⟨⟨value, rest⟩, hvalue, hrest⟩ := Option.bind_eq_some_iff.mp hv
  dsimp only at hrest
  split at hrest
  · obtain rfl := Option.some.inj hrest
    exact head_of_value?_str hvalue
  · cases hrest

end Json

namespace Condition

open Template (Lookup Piece)

/-! ### Texts with gaps -/

/-- The characters of a text, and the gaps between them. -/
abbrev Gapped := List (Option Char)

/-- The text with another one put into its gaps. -/
def Gapped.fill (text : List Char) (g : Gapped) : List Char := g.flatMap fun c => c.elim text ([·])

namespace Gapped
variable {text : List Char}

@[simp] theorem fill_nil : fill text [] = [] := rfl

@[simp] theorem fill_gap (g : Gapped) : fill text (none :: g) = text ++ fill text g := List.flatMap_cons

@[simp] theorem fill_char (c : Char) (g : Gapped) : fill text (some c :: g) = c :: fill text g := List.flatMap_cons

@[simp] theorem fill_append (g g' : Gapped) : fill text (g ++ g') = fill text g ++ fill text g' := List.flatMap_append

@[simp] theorem fill_chars (chars : List Char) : fill text (chars.map some) = chars := by
  induction chars with
  | nil => rfl
  | cons c rest ih => rw [List.map_cons, fill_char, ih]

end Gapped

/-- What is made from a string is one text with the string in its gaps. -/
def Shaped (f : String → List Char) : Prop := ∃ g : Gapped, ∀ t, f t = g.fill t.toList

namespace Shaped
variable {f f' : String → List Char}

theorem const (chars : List Char) : Shaped fun _ => chars := ⟨chars.map some, fun _ => (Gapped.fill_chars chars).symm⟩

theorem gap : Shaped String.toList := ⟨[none], fun t => (List.append_nil t.toList).symm⟩

theorem append (h : Shaped f) (h' : Shaped f') : Shaped fun t => f t ++ f' t := by
  obtain ⟨g, hg⟩ := h
  obtain ⟨g', hg'⟩ := h'
  exact ⟨g ++ g', fun t => by rw [Gapped.fill_append, ← hg, ← hg']⟩

theorem flatMap {α : Type} {parts : List α} {f : String → α → List Char} (h : ∀ a, Shaped fun t => f t a) :
    Shaped fun t => parts.flatMap (f t) := by
  induction parts with
  | nil => exact const []
  | cons a rest ih => exact (h a).append ih

end Shaped

/-! ### What operands stand for -/

/-- No literal stands for a text. -/
theorem literal?_ne_str (s : List Char) (w : String) : literal? s ≠ some (.str w) := by
  intro h
  unfold literal? at h
  repeat' split at h
  all_goals try cases h
  next hbegins =>
    obtain ⟨after, hafter⟩ := Json.head_of_read?_str h
    cases s with
    | nil => cases hafter
    | cons c rest =>
      simp only [List.head?_cons, Option.some.injEq] at hbegins
      rcases hbegins with rfl | rfl <;> cases hafter

theorem textValue_eq_str {s : List Char} {w : String} (h : textValue s = .str w) : w.toList = s := by
  rw [← Json.str.inj h, String.toList_ofList]

theorem literalOrText_eq_str {s : List Char} {w : String} (h : literalOrText s = .str w) : w.toList = s := by
  rw [literalOrText] at h
  cases hliteral : literal? s with
  | none =>
    rw [hliteral, Option.getD_none] at h
    exact textValue_eq_str h
  | some v =>
    rw [hliteral, Option.getD_some] at h
    exact absurd (hliteral.trans (congrArg some h)) (literal?_ne_str s w)

/-- What an operand stands for has nothing to do with the string, or where it is a text it is made from the string. -/
def Composed (result : String → Except EvalError Operand) : Prop :=
  (∀ t, result t = result "") ∨ ∃ f, Shaped f ∧ ∀ t w, result t = .ok (.value (.str w)) → w.toList = f t

/-- Scopes that differ in one string: a path leads to the string in all of them, or to the same in each. -/
def Varies (lookups : String → Lookup) : Prop :=
  ∀ path, (∀ t, lookups t path = some (.str t)) ∨ ∀ t, lookups t path = lookups "" path

section
variable {lookups : String → Lookup} (varies : Varies lookups)
include varies

theorem expandPiece_shaped (p : Piece) : Shaped fun t => Template.expandPiece (lookups t) p := by
  cases p with
  | char c => exact Shaped.const [c]
  | placeholder inner =>
    simp only [Template.expandPiece, Template.valueOf]
    split
    · exact Shaped.const _
    · rcases varies (Text.trim inner) with hstring | hfixed
      · simp only [hstring]
        exact Shaped.gap
      · simp only [hfixed]
        exact Shaped.const _

theorem ofTemplate_composed (s : List Char) {read : List Char → Json} (hread : ∀ s w, read s = .str w → w.toList = s) :
    Composed fun t => .ok (ofTemplate (lookups t) s read) := by
  refine Or.inr ⟨fun t => Template.expand (lookups t) s, Shaped.flatMap (expandPiece_shaped varies), fun t w h => ?_⟩
  have hvalue := Except.ok.inj h
  unfold ofTemplate at hvalue
  split at hvalue
  · cases hvalue
  · exact hread _ _ (Operand.value.inj hvalue)

theorem ofPath_composed (path : List Char) : Composed fun t => .ok (ofPath (lookups t) path) := by
  rcases varies path with hstring | hfixed
  · refine Or.inr ⟨String.toList, Shaped.gap, fun t w h => ?_⟩
    dsimp only at h
    rw [ofPath, hstring t] at h
    cases h
    rfl
  · refine Or.inl fun t => ?_
    dsimp only
    rw [ofPath, ofPath, hfixed t]

theorem operand_composed (text : List Char) : Composed fun t => operand (lookups t) text := by
  simp only [operand]
  split
  · exact Or.inl fun _ => rfl
  split
  · exact ofTemplate_composed varies _ fun _ _ => textValue_eq_str
  split
  · exact ofPath_composed varies _
  split
  · exact ofTemplate_composed varies _ fun _ _ => literalOrText_eq_str
  split
  · exact Or.inl fun _ => rfl
  split
  · exact Or.inl fun _ => rfl
  split
  · exact ofPath_composed varies _
  · exact Or.inl fun _ => rfl

end

/-! ### Descriptions -/

/-- The description of the text has all of it, and as it is. -/
structure ShownWhole (t : String) : Prop where
  unescaped : t.toList.flatMap Json.escapeChar = t.toList
  fits : Text.byteLength (Json.quote t) ≤ shownBytes

theorem ShownWhole.describe_toList {t : String} (h : ShownWhole t) :
    (describe (.str t)).toList = "string ".toList ++ '"' :: (t.toList ++ ['"']) := by
  have hquote : Json.quote t = '"' :: (t.toList ++ ['"']) := by
    rw [Json.quote, h.unescaped]
  have hdescribe : describe (.str t) = "string " ++ String.ofList (if shownBytes < Text.byteLength (Json.quote t) then
      Text.takeBytes shownBytes (Json.quote t) ++ ['…'] else Json.quote t) := rfl
  rw [hdescribe, if_neg (Nat.not_lt.mpr h.fits), String.toList_append, hquote]
  exact congrArg ("string ".toList ++ ·) String.toList_ofList

/-- What the operand stands for has nothing to do with the string, or it is a text that its description shows whole. -/
def Plain (lookups : String → Lookup) (t : String) (text : List Char) : Prop :=
  (∀ t', operand (lookups t') text = operand (lookups t) text) ∨
    ∃ w, operand (lookups t) text = .ok (.value (.str w)) ∧ ShownWhole w

/-- Where an operand is plain its description is made from the string, if it has to do with the string at all. -/
theorem operand_described {lookups : String → Lookup} (varies : Varies lookups) (text : List Char) :
    (∀ t, operand (lookups t) text = operand (lookups "") text) ∨
      ∃ f, Shaped f ∧ ∀ t, Plain lookups t text →
        ∃ w, operand (lookups t) text = .ok (.value (.str w)) ∧ (describe (.str w)).toList = f t := by
  by_cases hfixed : ∀ t, operand (lookups t) text = operand (lookups "") text
  · exact Or.inl hfixed
  · rcases operand_composed varies text with hfixed' | ⟨f, hf, htext⟩
    · exact absurd hfixed' hfixed
    · refine Or.inr ⟨fun t => "string ".toList ++ (['"'] ++ (f t ++ ['"'])),
        (Shaped.const _).append ((Shaped.const _).append (hf.append (Shaped.const _))), fun t plain => ?_⟩
      rcases plain with hsame | ⟨w, hw, whole⟩
      · exact absurd (fun t' => (hsame t').trans (hsame "").symm) hfixed
      · exact ⟨w, hw, by rw [whole.describe_toList, htext t w hw]; rfl⟩

/-! ### Queries -/

/-- It is known whether a result is an error, whatever the type of other results. -/
@[reducible] def decidableError {α : Type} (result : Except EvalError α) (e : EvalError) : Decidable (result = .error e) :=
  match result with
  | .error e' => decidable_of_iff (e' = e) ⟨congrArg _, Except.error.inj⟩
  | .ok _ => isFalse nofun

/-- What is asked of a scope. -/
inductive Query where
  | items (source : String)
  | count (expression : String)
  | truth (condition : String)

/-- The query has no answer. -/
def Query.Fails (lookup : Lookup) (e : EvalError) : Query → Prop
  | .items source => evalArray lookup source = .error e
  | .count expression => evalCount lookup expression = .error e
  | .truth condition => evalBool lookup condition = .error e

instance (lookup : Lookup) (e : EvalError) (q : Query) : Decidable (q.Fails lookup e) :=
  match q with
  | .items source => decidableError (evalArray lookup source) e
  | .count expression => decidableError (evalCount lookup expression) e
  | .truth condition => decidableError (evalBool lookup condition) e

/-- The result of a comparison of two operands. -/
def compareTexts (lookup : Lookup) (comparison : Comparison) (left right : List Char) : Except EvalError Bool := do
  compareOperands comparison (← operand lookup left) (← operand lookup right)

/-- The text is a comparison of two operands, perhaps in parentheses or negated. -/
inductive Compares (comparison : Comparison) (left right : List Char) : List Char → Prop
  | atom {s a : List Char} (form : form s = .atom a) (bare : existsArgument? a = none)
    (found : findComparison? a = some (comparison, left, right)) (left_ne : left ≠ []) (right_ne : right ≠ []) :
    Compares comparison left right s
  | negation {s inner : List Char} {count : Nat} (form : form s = .negation count inner)
    (compares : Compares comparison left right inner) : Compares comparison left right s
  | group {s inner : List Char} (form : form s = .group inner) (compares : Compares comparison left right inner) :
    Compares comparison left right s

/-- The operands that a query asks for. -/
inductive Query.Asks : Query → List (List Char) → Prop
  | items (source : String) : Asks (.items source) [Text.trim source.toList]
  | count (expression : String) : Asks (.count expression) [Text.trim expression.toList]
  | comparison {condition : String} {comparison : Comparison} {left right : List Char}
    (compares : Compares comparison left right (bare condition.toList)) : Asks (.truth condition) [left, right]

namespace Compares
variable {lookup : Lookup} {comparison : Comparison} {left right s : List Char} {e : EvalError}

theorem ne_blank (h : Compares comparison left right s) : Text.trim s ≠ [] := by
  intro hblank
  have hform : form s = .blank := by
    rw [form, hblank]
    rfl
  cases h with
  | atom form | negation form | group form => cases hform.symm.trans form

theorem ne_always (h : Compares comparison left right s) : s ≠ always := by
  rintro rfl
  have hform : form always = .atom always := rfl
  cases h with
  | atom form _ found =>
    cases hform.symm.trans form
    cases found
  | negation form | group form => cases hform.symm.trans form

/-- A comparison fails as its operands do, or as they cannot be compared. -/
theorem fails (h : Compares comparison left right s) (hs : value lookup s = .error e) :
    compareTexts lookup comparison left right = .error e := by
  induction h with
  | @atom s a form bare found left_ne right_ne =>
    rw [value_eq, evalBy, form] at hs
    dsimp only at hs
    rw [evalAtom, bare, found] at hs
    dsimp only at hs
    rw [List.isEmpty_eq_false_iff.mpr left_ne, List.isEmpty_eq_false_iff.mpr right_ne, Bool.or_false,
      if_neg Bool.false_ne_true] at hs
    exact hs
  | @negation s inner count form compares ih =>
    rw [value_eq, evalBy, form] at hs
    dsimp only at hs
    rw [List.isEmpty_eq_false_iff.mpr compares.ne_blank, if_neg Bool.false_ne_true] at hs
    cases hinner : value lookup inner with
    | error e' =>
      rw [hinner] at hs
      exact ih (hinner.trans hs)
    | ok b =>
      rw [hinner] at hs
      cases hs
  | @group s inner form compares ih =>
    rw [value_group form] at hs
    exact ih hs

theorem evalBool_fails {condition : String} (h : Compares comparison left right (bare condition.toList))
    (hs : evalBool lookup condition = .error e) : compareTexts lookup comparison left right = .error e := by
  have hne : bare condition.toList ≠ [] := fun hnil => h.ne_blank (by rw [hnil]; rfl)
  rw [evalBool_eq, List.isEmpty_eq_false_iff.mpr hne, if_neg Bool.false_ne_true, if_neg h.ne_always] at hs
  exact h.fails hs

end Compares

/-! ### Messages -/

theorem mismatch_message (comparison : Comparison) (a b : Json) : (mismatch comparison a b).message =
    "cannot apply '" ++ comparison.symbol ++ "' to " ++ describe a ++ " and " ++ describe b := rfl

/-- Values that a comparison does not apply to are both described. -/
theorem compareValues_error {comparison : Comparison} {a b : Json} {e : EvalError}
    (h : compareValues comparison a b = .error e) : e = mismatch comparison a b := by
  cases comparison with
  | equal | notEqual => cases h
  | _ =>
    simp only [compareValues] at h
    split at h <;> cases h
    rfl

theorem order?_str_str (s t : String) : order? (.str s) (.str t) ≠ none := by
  unfold order?
  split <;> simp

theorem compareValues_str_str (comparison : Comparison) (s t : String) (e : EvalError) :
    compareValues comparison (.str s) (.str t) ≠ .error e := by
  intro h
  cases comparison with
  | equal | notEqual | contains => cases h
  | _ =>
    simp only [compareValues] at h
    split at h
    · next hnone => exact order?_str_str s t hnone
    · cases h

theorem demand_error {α : Type} {ask : Json → Option α} {refuse : String → String → EvalError} {lookup : Lookup}
    {s : List Char} {v : Json} {e : EvalError} (stands : operand lookup s = .ok (.value v))
    (h : demand ask refuse lookup s = .error e) : e = refuse (String.ofList s) (describe v) := by
  have hne : s ≠ [] := by
    rintro rfl
    cases stands
  rw [demand_of_value hne stands] at h
  split at h
  · cases h
  · exact (Except.error.inj h).symm

/-- The messages of a query over plain operands are one text with the string in its gaps. -/
def Query.Fills (q : Query) (texts : List (List Char)) (lookups : String → Lookup) (g : Gapped) : Prop :=
  ∀ t e, (∀ text ∈ texts, Plain lookups t text) → q.Fails (lookups t) e → e.message.toList = g.fill t.toList

theorem exists_fill_of_fixed {α : Type} {result : String → Except EvalError α} (h : ∀ t, result t = result "") :
    ∃ g : Gapped, ∀ t e, result t = .error e → e.message.toList = g.fill t.toList := by
  cases hresult : result "" with
  | ok a => exact ⟨[], fun t e he => by cases hresult.symm.trans ((h t).symm.trans he)⟩
  | error e' =>
    refine ⟨e'.message.toList.map some, fun t e he => ?_⟩
    rw [Gapped.fill_chars, Except.error.inj (hresult.symm.trans ((h t).symm.trans he))]

/-- A missing operand differs from every text. -/
theorem nullTest_str (comparison : Comparison) (path : List Char) (w : String) :
    compareOperands.nullTest comparison path (.str w) = .error (missingVariable path) := by
  cases comparison <;> rfl

/-- A text on one side of a comparison, and on the other side what does not depend on the string. -/
theorem fills_beside {sides : Operand → Operand → Except EvalError Bool} {before after : Json → String}
    (missing : ∀ w path, sides (.value (.str w)) (.missing path) = .error (missingVariable path))
    (message : ∀ w v e, sides (.value (.str w)) (.value v) = .error e → e.message = before v ++ describe (.str w) ++ after v)
    {f : String → List Char} (hf : Shaped f) (other : Except EvalError Operand) :
    ∃ g : Gapped, ∀ t w e, (describe (.str w)).toList = f t → other.bind (sides (.value (.str w))) = .error e →
      e.message.toList = g.fill t.toList := by
  rcases other with e' | v | path
  · refine ⟨e'.message.toList.map some, fun t w e _ he => ?_⟩
    rw [Gapped.fill_chars, Except.error.inj he]
  · obtain ⟨g, hg⟩ := (Shaped.const (before v).toList).append (hf.append (Shaped.const (after v).toList))
    refine ⟨g, fun t w e hfound he => ?_⟩
    rw [message w v e he, String.toList_append, String.toList_append, hfound, List.append_assoc, ← hg]
  · refine ⟨(missingVariable path).message.toList.map some, fun t w e _ he => ?_⟩
    rw [Gapped.fill_chars, Except.error.inj ((missing w path).symm.trans he)]

section
variable {lookups : String → Lookup} (varies : Varies lookups)
include varies

theorem demand_fills {α : Type} {ask : Json → Option α} {refuse : String → String → EvalError} {before : String}
    {text : List Char} (message : ∀ found, (refuse (String.ofList text) found).message = before ++ found) :
    ∃ g : Gapped, ∀ t e, Plain lookups t text → demand ask refuse (lookups t) text = .error e →
      e.message.toList = g.fill t.toList := by
  rcases operand_described varies text with hfixed | ⟨f, hf, hdescribed⟩
  · have hsame (t : String) : demand ask refuse (lookups t) text = demand ask refuse (lookups "") text := by
      rw [demand, demand, hfixed t]
    obtain ⟨g, hg⟩ := exists_fill_of_fixed hsame
    exact ⟨g, fun t e _ => hg t e⟩
  · obtain ⟨g, hg⟩ := (Shaped.const before.toList).append hf
    refine ⟨g, fun t e plain he => ?_⟩
    obtain ⟨w, hw, hfound⟩ := hdescribed t plain
    rw [demand_error hw he, message, String.toList_append, hfound, ← hg]

theorem comparison_fills (comparison : Comparison) (left right : List Char) :
    ∃ g : Gapped, ∀ t e, Plain lookups t left → Plain lookups t right →
      compareTexts (lookups t) comparison left right = .error e → e.message.toList = g.fill t.toList := by
  rcases operand_described varies left with hleft | ⟨f, hf, hleft⟩ <;>
    rcases operand_described varies right with hright | ⟨f', hf', hright⟩
  · have hsame (t : String) :
        compareTexts (lookups t) comparison left right = compareTexts (lookups "") comparison left right := by
      rw [compareTexts, compareTexts, hleft t, hright t]
    obtain ⟨g, hg⟩ := exists_fill_of_fixed hsame
    exact ⟨g, fun t e _ _ => hg t e⟩
  · obtain ⟨g, hg⟩ := @fills_beside (fun right left => compareOperands comparison left right)
      (fun v => "cannot apply '" ++ comparison.symbol ++ "' to " ++ describe v ++ " and ") (fun _ => "")
      (fun w path => nullTest_str comparison path w)
      (fun w v e he => by rw [compareValues_error he, mismatch_message, String.append_empty]) _ hf' (operand (lookups "") left)
    refine ⟨g, fun t e _ plain he => ?_⟩
    obtain ⟨w, hw, hfound⟩ := hright t plain
    rw [compareTexts, hw, hleft t] at he
    exact hg t w e hfound he
  · obtain ⟨g, hg⟩ := @fills_beside (compareOperands comparison)
      (fun _ => "cannot apply '" ++ comparison.symbol ++ "' to ") (fun v => " and " ++ describe v)
      (fun w path => nullTest_str comparison path w)
      (fun w v e he => by rw [compareValues_error he, mismatch_message, String.append_assoc]) _ hf (operand (lookups "") right)
    refine ⟨g, fun t e plain _ he => ?_⟩
    obtain ⟨w, hw, hfound⟩ := hleft t plain
    rw [compareTexts, hw, hright t] at he
    exact hg t w e hfound he
  · -- Two texts can always be compared.
    refine ⟨[], fun t e plain plain' he => ?_⟩
    obtain ⟨w, hw, -⟩ := hleft t plain
    obtain ⟨w', hw', -⟩ := hright t plain'
    rw [compareTexts, hw, hw'] at he
    exact absurd he (compareValues_str_str comparison w w' e)

theorem Query.Asks.fills {q : Query} {texts : List (List Char)} (asks : q.Asks texts) : ∃ g, q.Fills texts lookups g := by
  cases asks with
  | items source =>
    obtain ⟨g, hg⟩ := @demand_fills lookups varies _ items? .notAnArray
      ("expected an array from '" ++ String.ofList (Text.trim source.toList) ++ "' but found ") (Text.trim source.toList)
      fun _ => rfl
    refine ⟨g, fun t e plain he => hg t e (plain _ List.mem_cons_self) ?_⟩
    rwa [Query.Fails, evalArray_eq] at he
  | count expression =>
    obtain ⟨g, hg⟩ := @demand_fills lookups varies _ count? .invalidCount
      ("expected a non-negative integer count from '" ++ String.ofList (Text.trim expression.toList) ++ "' but found ")
      (Text.trim expression.toList) fun _ => rfl
    refine ⟨g, fun t e plain he => hg t e (plain _ List.mem_cons_self) ?_⟩
    rwa [Query.Fails, evalCount_eq] at he
  | @comparison condition comparison left right compares =>
    obtain ⟨g, hg⟩ := comparison_fills varies comparison left right
    refine ⟨g, fun t e plain he => ?_⟩
    exact hg t e (plain _ List.mem_cons_self) (plain _ (List.mem_cons_of_mem _ List.mem_cons_self))
      (compares.evalBool_fails he)

end

end Condition

end StepTree
