import StepTree.Condition.Eval
import StepTree.Proofs.Condition.Scan

/-! # The value of an expression

The fuel of an evaluation is never used up, so that an expression has a value of its own. This file opens the
evaluation once: what the value of an expression is for each form that the expression can have. -/

namespace StepTree

namespace Text

theorem after?_eq_some {lead s rest : List Char} : after? lead s = some rest ↔ s = lead ++ rest := by
  refine ⟨eq_append_of_after?, ?_⟩
  rintro rfl
  exact after?_append lead rest

theorem before?_eq_some {tail s inner : List Char} : before? tail s = some inner ↔ s = inner ++ tail := by
  unfold before?
  rw [Option.map_eq_some_iff]
  constructor
  · rintro ⟨rest, hrest, rfl⟩
    have hs := congrArg List.reverse (after?_eq_some.mp hrest)
    simpa using hs
  · rintro rfl
    exact ⟨inner.reverse, by simp [after?_append], List.reverse_reverse inner⟩

theorem length_trim_le (s : List Char) : (trim s).length ≤ s.length := by
  obtain ⟨before, after, hs, -, -⟩ := trim_spec s
  have hlength := congrArg List.length hs
  simp only [List.length_append] at hlength
  omega

theorem trim_trim (s : List Char) : trim (trim s) = trim s := by
  by_cases h : trim s = []
  · rw [h]
    rfl
  · exact (tight_trim h).trim

end Text

namespace Condition

open Template (Lookup)

/-! ### Parts of an expression -/

theorem parenthesized?_eq_some {s inner : List Char} :
    parenthesized? s = some inner ↔ s = '(' :: inner ++ [')'] ∧ isBalanced .top inner = true := by
  simp only [parenthesized?, Option.bind_eq_bind, Option.bind_eq_some_iff, Text.after?_eq_some, Text.before?_eq_some]
  constructor
  · rintro ⟨rest, rfl, x, rfl, h⟩
    split at h
    · next hbalanced =>
      obtain rfl := Option.some.inj h
      exact ⟨rfl, hbalanced⟩
    · cases h
  · rintro ⟨rfl, hbalanced⟩
    exact ⟨inner ++ [')'], rfl, inner, rfl, if_pos hbalanced⟩

/-- What stands in front of an expression without its negations. -/
theorem negations_spec (s : List Char) :
    ∃ before, s = before ++ (negations s).2 ∧ (∀ c ∈ before, Text.isBlank c = true ∨ c = '!') ∧
      (negations s).1 ≤ before.length := by
  induction s with
  | nil => exact ⟨[], rfl, List.forall_mem_nil _, Nat.le_refl _⟩
  | cons c rest ih =>
    obtain ⟨before, hrest, hbefore, hle⟩ := ih
    rw [negations]
    split
    · next hblank =>
      exact ⟨c :: before, by rw [List.cons_append, ← hrest], List.forall_mem_cons.mpr ⟨Or.inl hblank, hbefore⟩,
        Nat.le_succ_of_le hle⟩
    · split
      · next hbang =>
        exact ⟨c :: before, by dsimp only; rw [List.cons_append, ← hrest],
          List.forall_mem_cons.mpr ⟨Or.inr hbang.1, hbefore⟩, Nat.succ_le_succ hle⟩
      · exact ⟨[], rfl, List.forall_mem_nil _, Nat.le_refl _⟩

/-! ### Forms -/

def bars : List Char := ['|', '|']

def amps : List Char := ['&', '&']

/-- What an expression consists of. -/
inductive Form where
  | blank
  /-- Operands of `||` or `&&`, with the value that decides. -/
  | connected (decisive : Bool) (parts : List (List Char))
  | negation (count : Nat) (inner : List Char)
  | group (inner : List Char)
  | atom (s : List Char)

def form (text : List Char) : Form :=
  let s := Text.trim text
  if s.isEmpty then .blank
  else match splitTop? bars s with
  | some parts => .connected true parts
  | none =>
    match splitTop? amps s with
    | some parts => .connected false parts
    | none =>
      let (count, inner) := negations s
      if 0 < count then .negation count inner
      else match parenthesized? inner with
        | some grouped => .group grouped
        | none => .atom inner

/-- The expressions that an expression consists of. -/
def Form.parts : Form → List (List Char)
  | .blank => []
  | .connected _ parts => parts
  | .negation _ inner => [inner]
  | .group inner => [inner]
  | .atom _ => []

theorem dropEmptyEnd_subset {pieces : List (List Char)} : dropEmptyEnd pieces ⊆ pieces := by
  unfold dropEmptyEnd
  split
  · exact List.dropLast_subset pieces
  · exact List.Subset.refl pieces

/-- The operands of an operator are shorter than the expression. -/
theorem length_part {op s : List Char} (hop : op ≠ []) {parts : List (List Char)} (h : splitTop? op s = some parts) :
    ∀ p ∈ parts, p.length < s.length := by
  obtain ⟨left, right, hfound, -, rfl⟩ := (splitTop?_eq_some hop).mp h
  obtain ⟨rfl, -, -⟩ := findTop?_spec hfound
  have hpos := List.length_pos_iff.mpr hop
  refine List.forall_mem_cons.mpr ⟨?_, fun p hp => ?_⟩
  · simp only [List.length_append]
    omega
  · have := length_piece hop right p (dropEmptyEnd_subset hp)
    simp only [List.length_append]
    omega

/-- A text that is not blank and not split at a connective. -/
structure Unsplit (u : List Char) : Prop where
  ne_nil : u ≠ []
  bars : splitTop? bars u = none
  amps : splitTop? amps u = none

def connective : Bool → List Char
  | true => bars
  | false => amps

/-- The text of each form. -/
def Form.Fits (u : List Char) : Form → Prop
  | .blank => u = []
  | .connected decisive parts =>
    splitTop? (connective decisive) u = some parts ∧ (decisive = false → splitTop? Condition.bars u = none)
  | .negation count inner => Unsplit u ∧ 0 < count ∧ ∃ before, u = before ++ inner ∧ count ≤ before.length ∧
      ∀ c ∈ before, Text.isBlank c = true ∨ c = '!'
  | .group inner => Unsplit u ∧ u = '(' :: inner ++ [')']
  | .atom a => Unsplit u ∧ a = u

theorem negations_zero {u : List Char} (tight : Text.Tight u) (h : ¬0 < (negations u).1) : (negations u).2 = u := by
  obtain ⟨c, rest, rfl, hc⟩ := tight.head
  rw [negations, if_neg (by simp [hc])] at h ⊢
  split at h
  · exact absurd (Nat.succ_pos _) h
  · next hbang => rw [if_neg hbang]

theorem form_fits (s : List Char) : (form s).Fits (Text.trim s) := by
  unfold form
  dsimp only
  split
  · next hblank => exact List.isEmpty_iff.mp hblank
  · next hblank =>
    have hne : Text.trim s ≠ [] := fun hnil => hblank (List.isEmpty_iff.mpr hnil)
    split
    · next parts hparts => exact ⟨hparts, nofun⟩
    · next hbars =>
      split
      · next parts hparts => exact ⟨hparts, fun _ => hbars⟩
      · next hamps =>
        have hunsplit : Unsplit (Text.trim s) := ⟨hne, hbars, hamps⟩
        split
        · next hpos =>
          obtain ⟨before, hs, hbefore, hle⟩ := negations_spec (Text.trim s)
          exact ⟨hunsplit, hpos, before, hs, hle, hbefore⟩
        · next hzero =>
          have hinner := negations_zero (Text.tight_trim hne) hzero
          split
          · next grouped hgrouped =>
            rw [hinner] at hgrouped
            exact ⟨hunsplit, (parenthesized?_eq_some.mp hgrouped).1⟩
          · exact ⟨hunsplit, hinner⟩

/-- An expression consists of shorter ones. -/
theorem form_shorter (s : List Char) : ∀ p ∈ (form s).parts, p.length < s.length := by
  suffices hshort : ∀ p ∈ (form s).parts, p.length < (Text.trim s).length from
    fun p hp => Nat.lt_of_lt_of_le (hshort p hp) (Text.length_trim_le s)
  have hfits := form_fits s
  cases hform : form s with
  | blank => exact List.forall_mem_nil _
  | connected decisive parts =>
    rw [hform] at hfits
    have hne : connective decisive ≠ [] := by cases decisive <;> decide
    exact length_part hne hfits.1
  | negation count inner =>
    rw [hform] at hfits
    obtain ⟨-, hpos, before, hs, hle, -⟩ := hfits
    refine List.forall_mem_singleton.mpr ?_
    rw [hs, List.length_append]
    omega
  | group inner =>
    rw [hform] at hfits
    refine List.forall_mem_singleton.mpr ?_
    rw [hfits.2, List.length_append, List.length_cons, List.length_singleton]
    omega
  | atom a => exact List.forall_mem_nil _

/-! ### Connectives -/

/-- The value of operands from left to right. The first one with the value that decides ends the evaluation. -/
def connect (decisive : Bool) (f : List Char → Except EvalError Bool) (parts : List (List Char)) :
    Except EvalError Bool :=
  if decisive then parts.anyM f else parts.allM f

section Connectives
variable {decisive b : Bool} {f g : List Char → Except EvalError Bool} {parts : List (List Char)}

@[simp] theorem connect_nil : connect decisive f [] = .ok !decisive := by
  cases decisive <;> rfl

theorem connect_cons (p : List Char) : connect decisive f (p :: parts) =
    (do if (← f p) = decisive then .ok decisive else connect decisive f parts) := by
  cases decisive
  · rw [connect, if_neg Bool.false_ne_true, List.allM]
    rcases f p with e | _ | _ <;> rfl
  · rw [connect, if_pos rfl, List.anyM]
    rcases f p with e | _ | _ <;> rfl

theorem connect_congr (h : ∀ p ∈ parts, f p = g p) : connect decisive f parts = connect decisive g parts := by
  induction parts with
  | nil => rw [connect_nil, connect_nil]
  | cons p rest ih =>
    obtain ⟨hp, hrest⟩ := List.forall_mem_cons.mp h
    rw [connect_cons, connect_cons, hp, ih hrest]

theorem connect_map (h : List Char → List Char) :
    connect decisive f (parts.map h) = connect decisive (fun p => f (h p)) parts := by
  induction parts with
  | nil => rw [List.map_nil, connect_nil, connect_nil]
  | cons p rest ih => rw [List.map_cons, connect_cons, connect_cons, ih]

theorem connect_singleton (p : List Char) : connect decisive f [p] = f p := by
  rw [connect_cons, connect_nil]
  cases decisive <;> rcases f p with e | _ | _ <;> rfl

theorem connect_append (xs ys : List (List Char)) : connect decisive f (xs ++ ys) =
    (do if (← connect decisive f xs) = decisive then .ok decisive else connect decisive f ys) := by
  induction xs with
  | nil =>
    rw [connect_nil, List.nil_append]
    cases decisive <;> rfl
  | cons x xs ih =>
    rw [List.cons_append, connect_cons, connect_cons, ih]
    cases f x with
    | error e => rfl
    | ok b => cases decisive <;> cases b <;> rfl

theorem connect_cons_ok {p : List Char} (h : connect decisive f (p :: parts) = .ok b) :
    f p = .ok decisive ∧ b = decisive ∨ f p = .ok (!decisive) ∧ connect decisive f parts = .ok b := by
  rw [connect_cons] at h
  cases hp : f p with
  | error e =>
    rw [hp] at h
    cases h
  | ok c =>
    rw [hp] at h
    by_cases hc : c = decisive
    · subst hc
      exact Or.inl ⟨rfl, by simpa [bind, Except.bind] using h.symm⟩
    · refine Or.inr ⟨congrArg Except.ok (Bool.eq_not_of_ne hc), ?_⟩
      simpa [bind, Except.bind, hc] using h

/-- An operand behind undecided ones is evaluated. -/
theorem connect_reached {before after : List (List Char)} {p : List Char}
    (h : connect decisive f (before ++ p :: after) = .ok b) (undecided : ∀ q ∈ before, f q = .ok !decisive) :
    ∃ c, f p = .ok c := by
  induction before with
  | nil => rcases connect_cons_ok h with ⟨hp, -⟩ | ⟨hp, -⟩ <;> exact ⟨_, hp⟩
  | cons q before ih =>
    obtain ⟨hq, hbefore⟩ := List.forall_mem_cons.mp undecided
    rcases connect_cons_ok h with ⟨hq', -⟩ | ⟨-, hrest⟩
    · have heq := Except.ok.inj (hq.symm.trans hq')
      cases decisive <;> cases heq
    · exact ih hrest hbefore

/-- What stands behind an operand that decides does not matter. -/
theorem connect_decided {before after : List (List Char)} {p : List Char}
    (undecided : ∀ q ∈ before, f q = .ok !decisive) (h : f p = .ok decisive) :
    connect decisive f (before ++ p :: after) = .ok decisive := by
  induction before with
  | nil => simp [connect_cons, h, bind, Except.bind]
  | cons q before ih =>
    obtain ⟨hq, hbefore⟩ := List.forall_mem_cons.mp undecided
    rw [List.cons_append, connect_cons, hq, ih hbefore]
    cases decisive <;> rfl

/-- Where no operand before the last one decides, all of them are evaluated. -/
theorem connect_undecided (h : connect decisive f parts = .ok b)
    (undecided : ∀ before p after, parts = before ++ p :: after → after ≠ [] → f p = .ok decisive →
      ¬∀ q ∈ before, f q = .ok !decisive) :
    ∀ before p after, parts = before ++ p :: after → ∀ q ∈ before, f q = .ok !decisive := by
  induction parts with
  | nil => exact fun before p after heq => by simp at heq
  | cons x parts ih =>
    intro before p after heq
    cases before with
    | nil => exact List.forall_mem_nil _
    | cons y before =>
      obtain ⟨rfl, rfl⟩ := List.cons.inj heq
      rcases connect_cons_ok h with ⟨hx, -⟩ | ⟨hx, hrest⟩
      · exact absurd (List.forall_mem_nil _) (undecided [] x _ rfl (by simp) hx)
      · refine List.forall_mem_cons.mpr ⟨hx, ih hrest (fun l q r hsplit hr hq hl => ?_) before p after rfl⟩
        exact undecided (x :: l) q r (by rw [hsplit]; rfl) hr hq (List.forall_mem_cons.mpr ⟨hx, hl⟩)

end Connectives

/-! ### Values -/

/-- What a number of negations makes of a value. -/
def negated (count : Nat) (b : Bool) : Bool := if count % 2 = 1 then !b else b

/-- Evaluates an expression whose parts are evaluated by `part`. -/
def evalBy (lookup : Lookup) (part : List Char → Except EvalError Bool) (s : List Char) : Except EvalError Bool :=
  match form s with
  | .blank => .error (invalid (Text.trim s) .missingOperand)
  | .connected decisive parts => connect decisive part parts
  | .negation count inner =>
    if (Text.trim inner).isEmpty then .error (invalid (Text.trim s) .danglingNegation)
    else (part inner).map (negated count)
  | .group inner => part inner
  | .atom a => evalAtom lookup a

theorem evalNode_succ (lookup : Lookup) (fuel : Nat) (s : List Char) :
    evalNode lookup (fuel + 1) s = evalBy lookup (evalNode lookup fuel) s := by
  unfold evalNode evalBy form
  dsimp only
  split
  · next h => rw [List.isEmpty_iff.mp h]
  · change (match splitTop? bars (Text.trim s) with | some _ => _ | none => _) = _
    cases splitTop? bars (Text.trim s) with
    | some parts => rfl
    | none =>
      change (match splitTop? amps (Text.trim s) with | some _ => _ | none => _) = _
      cases splitTop? amps (Text.trim s) with
      | some parts => rfl
      | none =>
        dsimp only
        split
        · dsimp only
          split
          · rfl
          · cases evalNode lookup fuel (negations (Text.trim s)).2 <;> rfl
        · cases parenthesized? (negations (Text.trim s)).2 <;> rfl

/-- The value of an expression depends on those that it consists of alone. -/
theorem evalBy_congr {lookup : Lookup} {f g : List Char → Except EvalError Bool} {s : List Char}
    (h : ∀ p : List Char, p.length < s.length → f p = g p) : evalBy lookup f s = evalBy lookup g s := by
  have hparts : ∀ p ∈ (form s).parts, f p = g p := fun p hp => h p (form_shorter s p hp)
  unfold evalBy
  cases hform : form s with
  | blank => rfl
  | connected decisive parts =>
    rw [hform] at hparts
    exact connect_congr hparts
  | negation count inner =>
    rw [hform] at hparts
    dsimp only
    rw [List.forall_mem_singleton.mp hparts]
  | group inner =>
    rw [hform] at hparts
    exact hparts inner List.mem_cons_self
  | atom a => rfl

/-- The value of an expression. -/
def value (lookup : Lookup) (s : List Char) : Except EvalError Bool := evalNode lookup (s.length + 1) s

theorem evalNode_eq_value (lookup : Lookup) {fuel : Nat} {s : List Char} (h : s.length < fuel) :
    evalNode lookup fuel s = value lookup s := by
  induction hlength : s.length using Nat.strongRecOn generalizing s fuel with
  | ind k ih =>
    obtain ⟨fuel, rfl⟩ : ∃ f, fuel = f + 1 := ⟨fuel - 1, by omega⟩
    rw [value, evalNode_succ, evalNode_succ]
    refine evalBy_congr fun p hp => ?_
    rw [ih p.length (by omega) (by omega) rfl, ih p.length (by omega) (by omega) rfl]

theorem value_eq (lookup : Lookup) (s : List Char) : value lookup s = evalBy lookup (value lookup) s := by
  rw [value, evalNode_succ]
  exact evalBy_congr fun p hp => evalNode_eq_value lookup hp

section Parts
variable {lookup : Lookup} {s : List Char} {b : Bool}

theorem value_connected {decisive : Bool} {parts : List (List Char)} (h : form s = .connected decisive parts) :
    value lookup s = connect decisive (value lookup) parts := by
  rw [value_eq, evalBy, h]

theorem value_group {inner : List Char} (h : form s = .group inner) : value lookup s = value lookup inner := by
  rw [value_eq, evalBy, h]

theorem negation_ok {count : Nat} {inner : List Char} (h : form s = .negation count inner)
    (hs : value lookup s = .ok b) : ∃ c, value lookup inner = .ok c := by
  rw [value_eq, evalBy, h] at hs
  dsimp only at hs
  split at hs
  · cases hs
  · cases hinner : value lookup inner with
    | error e =>
      rw [hinner] at hs
      cases hs
    | ok c => exact ⟨c, rfl⟩

end Parts

theorem evalBool_eq (lookup : Lookup) (expression : String) :
    evalBool lookup expression =
      if (bare expression.toList).isEmpty then .error .empty
      else if bare expression.toList = always then .ok true
      else value lookup (bare expression.toList) := rfl

/-- Blanks around an expression do not count. -/
theorem value_trim (lookup : Lookup) (s : List Char) : value lookup (Text.trim s) = value lookup s := by
  have hform : form (Text.trim s) = form s := by rw [form, form, Text.trim_trim]
  rw [value_eq, value_eq lookup s, evalBy, evalBy, hform, Text.trim_trim]

/-! ### Expressions that do not end like an operator -/

section Ends
variable {lookup : Lookup} {s init : List Char} {d : Char}

theorem connect_operands (decisive : Bool) (op : List Char) :
    connect decisive (value lookup) (operands op s) = connect decisive (value lookup) (splitFrom op .top 0 s) := by
  rw [operands, connect_map]
  exact connect_congr fun p _ => value_trim lookup p

/-- An expression that does not end with `||` is the disjunction of its operands. -/
theorem value_disjunction (h : Text.Tight s) (hs : s = init ++ [d]) (hd : d ∉ bars) :
    value lookup s = connect true (value lookup) (operands bars s) := by
  have hbars : bars ≠ [] := by decide
  cases hfound : findTop? bars .top s with
  | none => rw [operands_of_none hbars hfound, h.trim, connect_singleton]
  | some found =>
    have hform : form s = .connected true (splitFrom bars .top 0 s) := by
      rw [form, h.trim]
      dsimp only
      rw [List.isEmpty_eq_false_iff.mpr h.ne_nil, splitTop?_of_found hbars hd hs hfound]
      rfl
    rw [value_eq, evalBy, hform, connect_operands]

/-- An expression without `||` that does not end with `&&` is the conjunction of its operands. -/
theorem value_conjunction (h : Text.Tight s) (hnone : findTop? bars .top s = none) (hs : s = init ++ [d])
    (hd : d ∉ amps) : value lookup s = connect false (value lookup) (operands amps s) := by
  have hamps : amps ≠ [] := by decide
  cases hfound : findTop? amps .top s with
  | none => rw [operands_of_none hamps hfound, h.trim, connect_singleton]
  | some found =>
    have hform : form s = .connected false (splitFrom amps .top 0 s) := by
      rw [form, h.trim]
      dsimp only
      rw [List.isEmpty_eq_false_iff.mpr h.ne_nil, (splitTop?_eq_none (by decide)).mpr (by simp [hnone]),
        splitTop?_of_found hamps hd hs hfound]
      rfl
    rw [value_eq, evalBy, hform, connect_operands]

/-- An expression without connectives is a negation, or in parentheses, or has no such parts. -/
theorem form_simple (h : Text.Tight s) (hbars : splitTop? bars s = none) (hamps : splitTop? amps s = none) :
    form s =
      if 0 < (negations s).1 then .negation (negations s).1 (negations s).2
      else match parenthesized? (negations s).2 with
        | some grouped => .group grouped
        | none => .atom (negations s).2 := by
  rw [form, h.trim]
  dsimp only
  rw [List.isEmpty_eq_false_iff.mpr h.ne_nil, hbars, hamps]
  rfl

end Ends

end Condition

end StepTree
