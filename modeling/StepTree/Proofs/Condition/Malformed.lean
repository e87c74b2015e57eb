import StepTree.Proofs.Condition.Agreement
import StepTree.Proofs.Condition.Operand

/-! # Malformed expressions are refused

An expression whose parentheses do not balance, whose quotes stay open, or in which an operand of `||` or `&&` is
left out has no value, as far as it is read: not behind an operand that decides, and not in the test of a path or in
an operand that is taken as it is written. -/

namespace StepTree.Condition

open Template (Lookup)
open Nesting

/-! ### What is malformed -/

/-- An operand of the operator is left out. An operator at the end counts only if there is no other one. -/
def LacksOperand (op s : List Char) : Prop :=
  [] ∈ (operands op s).dropLast ∨ ∃ left, operands op s = [left, []]

inductive Malformed (s : List Char) : Prop
  | unclosed (h : ¬Closed s) : Malformed s
  | disjunct (h : LacksOperand bars s) : Malformed s
  | conjunct (p : List Char) (mem : p ∈ operands bars s) (h : LacksOperand amps p) : Malformed s

structure WellFormed (s : List Char) : Prop where
  closed : Closed s
  disjuncts : ¬LacksOperand bars s
  conjuncts : ∀ p ∈ operands bars s, ¬LacksOperand amps p

theorem WellFormed.not_malformed {s : List Char} (h : WellFormed s) : ¬Malformed s
  | .unclosed hs => hs h.closed
  | .disjunct hs => h.disjuncts hs
  | .conjunct p mem hs => h.conjuncts p mem hs

/-! ### What is read -/

/-- Evaluating a text comes to evaluating another one. -/
inductive Reads (lookup : Lookup) : List Char → List Char → Prop
  | self (s : List Char) : Reads lookup s s
  | operand {s p t : List Char} {decisive : Bool} {before after : List (List Char)}
    (h : form s = .connected decisive (before ++ p :: after))
    (undecided : ∀ q ∈ before, value lookup q = .ok !decisive) (reads : Reads lookup p t) : Reads lookup s t
  | negated {s inner t : List Char} {count : Nat} (h : form s = .negation count inner)
    (reads : Reads lookup inner t) : Reads lookup s t
  | grouped {s inner t : List Char} (h : form s = .group inner) (reads : Reads lookup inner t) : Reads lookup s t

/-- An operand before the last one decides. -/
def Decided (lookup : Lookup) (s : List Char) (b : Bool) : Prop :=
  ∃ before p after, form s = .connected b (before ++ p :: after) ∧ after ≠ [] ∧ value lookup p = .ok b ∧
    ∀ q ∈ before, value lookup q = .ok !b

/-- Some of the text is not looked at: an operand decides before the end, or the text tests a path, or an operand is
taken as it is written. -/
def Lenient (lookup : Lookup) (s : List Char) : Prop :=
  (∃ b, Decided lookup s b) ∨
    ∃ a, form s = .atom a ∧ ((existsArgument? a).isSome = true ∨ ∃ o ∈ sides a, TakenAsWritten o)

/-- Everything that evaluating the text comes to is looked at. -/
def Strict (lookup : Lookup) (s : List Char) : Prop := ∀ t, Reads lookup s t → ¬Lenient lookup t

/-! ### Operands that are left out -/

section Operands
variable {op u : List Char}

theorem not_lacks_of_none (hop : op ≠ []) (h : findTop? op top u = none) : ¬LacksOperand op u := by
  rw [LacksOperand, operands_of_none hop h]
  rintro (hmem | ⟨left, heq⟩)
  · cases hmem
  · cases heq

/-- An operator at the end lacks its right side if it is the only one. -/
theorem lacks_of_end (hop : op ≠ []) {left : List Char} (h : findTop? op top u = some (left, [])) :
    LacksOperand op u := by
  refine Or.inr ⟨Text.trim left, ?_⟩
  rw [operands_of_some hop h, operands_of_none hop (h := rfl)]
  rfl

theorem mem_dropEmptyEnd {pieces : List (List Char)} {p : List Char} (h : p ∈ pieces) :
    p ∈ dropEmptyEnd pieces ∨ p = [] := by
  unfold dropEmptyEnd
  split
  · next hlast =>
    obtain ⟨rest, rfl⟩ := List.getLast?_eq_some_iff.mp hlast
    rw [List.dropLast_concat]
    exact (List.mem_append.mp h).imp id List.mem_singleton.mp
  · exact Or.inl h

theorem dropLast_subset_dropEmptyEnd (pieces : List (List Char)) : pieces.dropLast ⊆ dropEmptyEnd pieces := by
  unfold dropEmptyEnd
  split
  · exact List.Subset.refl _
  · exact List.dropLast_subset pieces

theorem splitTop?_parts {parts : List (List Char)} (h : splitTop? op u = some parts) :
    parts = dropEmptyEnd (splitFrom op top 0 u) ∧ 1 < parts.length := by
  unfold splitTop? at h
  dsimp only at h
  split at h
  · next hlength =>
    obtain rfl := Option.some.inj h
    exact ⟨rfl, hlength⟩
  · cases h

/-- No operand is left out of a text whose operands are not blank. -/
theorem not_lacks_of_parts {parts : List (List Char)} (h : splitTop? op u = some parts)
    (hparts : ∀ p ∈ parts, Text.trim p ≠ []) : ¬LacksOperand op u := by
  obtain ⟨rfl, hlength⟩ := splitTop?_parts h
  rintro (hmem | ⟨left, heq⟩)
  · rw [operands, ← List.map_dropLast] at hmem
    obtain ⟨p, hp, hblank⟩ := List.mem_map.mp hmem
    exact hparts p (dropLast_subset_dropEmptyEnd _ hp) hblank
  · obtain ⟨p, rest, hpieces, -, hrest⟩ := List.map_eq_cons_iff.mp heq
    obtain ⟨q, hq, hblank⟩ := List.map_eq_singleton_iff.mp hrest
    rw [hpieces, hq] at hlength hparts
    have hmem : q ∈ [p, q] := List.mem_cons_of_mem p List.mem_cons_self
    rcases mem_dropEmptyEnd hmem with hpart | hnil
    · exact hparts q hpart hblank
    · simp [dropEmptyEnd, hnil] at hlength

/-- Operands that are closed make a closed text. -/
theorem closed_of_parts (hop : op ≠ []) (hclosed : Closed op) {parts : List (List Char)}
    (h : splitTop? op u = some parts) (hparts : ∀ p ∈ parts, Closed p) : Closed u := by
  have hjoin : (∀ p ∈ splitFrom op top 0 u, Closed p) → Closed u := by
    refine splitFrom_induction hop (P := fun u pieces => (∀ p ∈ pieces, Closed p) → Closed u) ?_ ?_ u
    · exact fun u _ h => h u List.mem_cons_self
    · intro left right _ ih h
      obtain ⟨hleft, hright⟩ := List.forall_mem_cons.mp h
      exact (hleft.append hclosed).append (ih hright)
  obtain ⟨rfl, -⟩ := splitTop?_parts h
  refine hjoin fun p hp => ?_
  rcases mem_dropEmptyEnd hp with hpart | rfl
  · exact hparts p hpart
  · exact Closed.nil

/-- The operator does not occur in the pieces. -/
theorem findTop?_piece (hop : op ≠ []) (u : List Char) : ∀ p ∈ splitFrom op top 0 u, findTop? op top p = none := by
  refine splitFrom_induction hop (P := fun _ pieces => ∀ p ∈ pieces, findTop? op top p = none) ?_ ?_ u
  · exact fun u hnone => List.forall_mem_singleton.mpr hnone
  · exact fun left right hfound ih => List.forall_mem_cons.mpr ⟨(findTop?_spec hfound).2.2 hop, ih⟩

/-- The last piece of a text that is split stands behind an operator, at the top level. -/
theorem last_piece (hop : op ≠ []) (hclosed : Closed op) {left right : List Char}
    (h : findTop? op top u = some (left, right)) :
    ∃ before p, u = before ++ op ++ p ∧ top.after before = top ∧ p ∈ splitFrom op top 0 u := by
  have hlast : (∃ found, findTop? op top u = some found) →
      ∃ before p, u = before ++ op ++ p ∧ top.after before = top ∧ p ∈ splitFrom op top 0 u := by
    refine splitFrom_induction hop (P := fun u pieces => (∃ found, findTop? op top u = some found) →
      ∃ before p, u = before ++ op ++ p ∧ top.after before = top ∧ p ∈ pieces) ?_ ?_ u
    · rintro u hnone ⟨found, hfound⟩
      cases hnone.symm.trans hfound
    · intro left right hfound ih _
      obtain ⟨-, hleft, -⟩ := findTop?_spec hfound
      cases hright : findTop? op top right with
      | none =>
        have hmem : right ∈ splitFrom op top 0 right := by
          rw [splitFrom_eq hop, hright]
          exact List.mem_cons_self
        exact ⟨left, right, rfl, hleft, List.mem_cons_of_mem _ hmem⟩
      | some found =>
        obtain ⟨before, p, rfl, hbefore, hmem⟩ := ih ⟨found, hright⟩
        refine ⟨left ++ op ++ before, p, by simp, ?_, List.mem_cons_of_mem _ hmem⟩
        rw [after_append, after_append, hleft, hclosed.after, hbefore]
  exact hlast ⟨_, h⟩

/-- An operator at the end of a text stands at the end of what follows another character. -/
theorem end_behind {before left t : List Char} {d : Char} (hop : op ≠ []) (hd : d ∉ op)
    (hbefore : top.after (before ++ [d]) = top) (h : findTop? op top (before ++ d :: t) = some (left, [])) :
    ∃ left', findTop? op top t = some (left', []) := by
  rw [findTop?_append hd] at h
  cases hfirst : findTop? op top before with
  | some found =>
    rw [hfirst] at h
    simp at h
  | none =>
    rw [hfirst] at h
    obtain ⟨⟨l, r⟩, hfound, heq⟩ := Option.map_eq_some_iff.mp h
    obtain ⟨-, rfl⟩ := Prod.mk.inj heq
    have hmiss : op.isPrefixOf (d :: t) = false := by
      obtain ⟨o, op, rfl⟩ := List.exists_cons_of_ne_nil hop
      have hne : o ≠ d := fun heq => hd (heq ▸ List.mem_cons_self)
      simp [List.isPrefixOf, hne]
    have hnext : (top.after before).next d = top := by simpa using hbefore
    rw [findTop?, hmiss, Bool.and_false, if_neg Bool.false_ne_true, hnext] at hfound
    obtain ⟨⟨l', r'⟩, hfound, heq⟩ := Option.map_eq_some_iff.mp hfound
    obtain ⟨-, rfl⟩ := Prod.mk.inj heq
    exact ⟨l', hfound⟩

/-- A text that ends with another character has no operator at its end. -/
theorem not_end {init : List Char} {d : Char} (hop : op ≠ []) (hu : u = init ++ [d]) (hd : d ∉ op) (left : List Char) :
    findTop? op top u ≠ some (left, []) := by
  intro h
  obtain ⟨hs, -, -⟩ := findTop?_spec h
  obtain ⟨rest, c, rfl⟩ := (List.eq_nil_or_concat op).resolve_left hop
  rw [List.append_nil, List.concat_eq_append, ← List.append_assoc, hu] at hs
  obtain ⟨-, rfl⟩ := List.append_singleton_inj.mp hs
  simp at hd

end Operands

/-! ### Expressions that have a value -/

section Values
variable {lookup : Lookup} {s t : List Char} {b : Bool}

/-- Whatever is read of an expression that has a value has a value. -/
theorem Reads.ok (h : Reads lookup s t) (hs : value lookup s = .ok b) : ∃ c, value lookup t = .ok c := by
  induction h generalizing b with
  | self s => exact ⟨b, hs⟩
  | operand h undecided reads ih =>
    obtain ⟨c, hc⟩ := connect_reached ((value_connected h).symm.trans hs) undecided
    exact ih hc
  | negated h reads ih =>
    obtain ⟨c, hc⟩ := negation_ok h hs
    exact ih hc
  | grouped h reads ih => exact ih ((value_group h).symm.trans hs)

theorem not_blank_of_value (h : value lookup s = .ok b) : Text.trim s ≠ [] := by
  intro hblank
  rw [value_eq, evalBy, form, hblank] at h
  cases h

theorem Strict.operand {decisive : Bool} {before after : List (List Char)} (h : Strict lookup s)
    (hform : form s = .connected decisive (before ++ t :: after))
    (undecided : ∀ q ∈ before, value lookup q = .ok !decisive) : Strict lookup t :=
  fun _ reads => h _ (.operand hform undecided reads)

/-- The operands of an expression that has a value and is looked at have values and are looked at. -/
theorem Strict.operands {decisive : Bool} {parts : List (List Char)} (h : Strict lookup s)
    (hform : form s = .connected decisive parts) (hs : value lookup s = .ok b) :
    ∀ p ∈ parts, Strict lookup p ∧ ∃ c, value lookup p = .ok c := by
  rw [value_connected hform] at hs
  have undecided := connect_undecided hs fun before p after heq hafter hp hbefore =>
    h s (.self s) (Or.inl ⟨decisive, before, p, after, by rw [hform, heq], hafter, hp, hbefore⟩)
  intro p hp
  obtain ⟨before, after, rfl⟩ := List.append_of_mem hp
  have hbefore := undecided before p after rfl
  exact ⟨h.operand hform hbefore, connect_reached hs hbefore⟩

/-- A text that is not split at an operator contains none, or it is at the end. -/
theorem findTop?_unsplit {op u : List Char} (hop : op ≠ []) (h : splitTop? op u = none)
    (hend : ∀ left, findTop? op top u ≠ some (left, [])) : findTop? op top u = none := by
  cases hu : findTop? op top u with
  | none => rfl
  | some found =>
    obtain ⟨left, right⟩ := found
    obtain rfl := (splitTop?_eq_none hop).mp h left right hu
    exact absurd hu (hend left)

theorem lacksOperand_trim {op : List Char} (hop : op ≠ []) (h : op.any Text.isBlank = false) (s : List Char) :
    LacksOperand op (Text.trim s) ↔ LacksOperand op s := by
  rw [LacksOperand, LacksOperand, operands_trim hop h]

/-- An expression that is split at no connective and does not end with one is well formed if it is closed. -/
theorem WellFormed.of_unsplit (h : Unsplit (Text.trim s)) (closed : Closed (Text.trim s))
    (hbars : ∀ left, findTop? bars top (Text.trim s) ≠ some (left, []))
    (hamps : ∀ left, findTop? amps top (Text.trim s) ≠ some (left, [])) : WellFormed s := by
  have hnone := findTop?_unsplit (by decide) h.bars hbars
  constructor
  · exact closed.of_trim
  · rw [← lacksOperand_trim (by decide) (by decide)]
    exact not_lacks_of_none (by decide) hnone
  · rw [← operands_trim (by decide) (by decide), operands_of_none (by decide) hnone, Text.trim_trim]
    refine List.forall_mem_singleton.mpr ?_
    exact not_lacks_of_none (by decide) (findTop?_unsplit (by decide) h.amps hamps)

theorem WellFormed.of_disjuncts {parts : List (List Char)} (h : splitTop? bars (Text.trim s) = some parts)
    (wellFormed : ∀ p ∈ parts, WellFormed p) (filled : ∀ p ∈ parts, Text.trim p ≠ []) : WellFormed s := by
  have hbars : bars ≠ [] := by decide
  constructor
  · exact (closed_of_parts hbars (by decide) h fun p hp => (wellFormed p hp).closed).of_trim
  · rw [← lacksOperand_trim hbars (by decide)]
    exact not_lacks_of_parts h filled
  · intro p hp
    rw [← operands_trim hbars (by decide)] at hp
    obtain ⟨q, hq, rfl⟩ := List.mem_map.mp hp
    have hnone := findTop?_piece hbars _ q hq
    obtain ⟨rfl, -⟩ := splitTop?_parts h
    rcases mem_dropEmptyEnd hq with hpart | rfl
    · refine (wellFormed q hpart).conjuncts _ ?_
      rw [operands_of_none hbars hnone]
      exact List.mem_cons_self
    · exact not_lacks_of_none (by decide) rfl

theorem WellFormed.of_conjuncts {parts : List (List Char)} (hsplit : splitTop? bars (Text.trim s) = none)
    (h : splitTop? amps (Text.trim s) = some parts) (wellFormed : ∀ p ∈ parts, WellFormed p)
    (filled : ∀ p ∈ parts, Text.trim p ≠ []) : WellFormed s := by
  have hbars : bars ≠ [] := by decide
  have hamps : amps ≠ [] := by decide
  have hnone : findTop? bars top (Text.trim s) = none := by
    -- A `||` at the end would stand at the end of the last operand, too.
    refine findTop?_unsplit hbars hsplit fun left hleft => ?_
    obtain ⟨l, r, hfound, -, -⟩ := (splitTop?_eq_some hamps).mp h
    obtain ⟨before, p, hp, hbefore, hmem⟩ := last_piece hamps (by decide) hfound
    have hsplit' : Text.trim s = (before ++ ['&']) ++ '&' :: p := by simpa [amps] using hp
    have htop : top.after (before ++ ['&'] ++ ['&']) = top := by
      rw [after_append, after_append, hbefore]
      rfl
    rw [hsplit'] at hleft
    obtain ⟨left', hend⟩ := end_behind hbars (by decide) htop hleft
    obtain ⟨rfl, -⟩ := splitTop?_parts h
    rcases mem_dropEmptyEnd hmem with hpart | rfl
    · exact (wellFormed p hpart).disjuncts (lacks_of_end hbars hend)
    · cases hend
  constructor
  · exact (closed_of_parts hamps (by decide) h fun p hp => (wellFormed p hp).closed).of_trim
  · rw [← lacksOperand_trim hbars (by decide)]
    exact not_lacks_of_none hbars hnone
  · rw [← operands_trim hbars (by decide), operands_of_none hbars hnone, Text.trim_trim]
    exact List.forall_mem_singleton.mpr (not_lacks_of_parts h filled)

theorem WellFormed.of_negation {before inner : List Char} (h : Unsplit (Text.trim s))
    (hs : Text.trim s = before ++ inner) (hne : before ≠ [])
    (hbefore : ∀ c ∈ before, Text.isBlank c = true ∨ c = '!') (wellFormed : WellFormed inner) : WellFormed s := by
  have hbars : bars ≠ [] := by decide
  have hamps : amps ≠ [] := by decide
  have hchars : ∀ c ∈ before, isPlain c = true ∧ c ∉ bars ∧ c ∉ amps := by
    intro c hc
    rcases hbefore c hc with hblank | rfl
    · have hother : ∀ d, Text.isBlank d = false → c ≠ d := fun _ => ne_of_kind hblank
      exact ⟨isPlain_of_blank hblank, by simp [bars, hother '|' rfl], by simp [amps, hother '&' rfl]⟩
    · decide
  have hclosed : Closed before := Closed.plain fun c hc => (hchars c hc).1
  obtain ⟨rest, d, hd⟩ := (List.eq_nil_or_concat before).resolve_left hne
  rw [List.concat_eq_append] at hd
  have hsplit : Text.trim s = rest ++ d :: inner := by rw [hs, hd]; simp
  obtain ⟨-, hdbars, hdamps⟩ := hchars d (by simp [hd])
  have htop : top.after (rest ++ [d]) = top := hd ▸ hclosed.after
  have hend : ∀ left, findTop? bars top (Text.trim s) ≠ some (left, []) := by
    intro left hleft
    rw [hsplit] at hleft
    obtain ⟨left', hinner⟩ := end_behind hbars hdbars htop hleft
    exact wellFormed.disjuncts (lacks_of_end hbars hinner)
  have hnone : findTop? bars top inner = none := by
    cases hinner : findTop? bars top inner with
    | none => rfl
    | some found =>
      rw [← hclosed.after] at hinner
      obtain ⟨l, r, hfound, -⟩ := findTop?_suffix before top hinner
      rw [← hs, findTop?_unsplit hbars h.bars hend] at hfound
      cases hfound
  refine WellFormed.of_unsplit h (hs ▸ hclosed.append wellFormed.closed) hend fun left hleft => ?_
  rw [hsplit] at hleft
  obtain ⟨left', hinner⟩ := end_behind hamps hdamps htop hleft
  have hconjunct : ¬LacksOperand amps (Text.trim inner) :=
    wellFormed.conjuncts _ (by rw [operands_of_none hbars hnone]; exact List.mem_cons_self)
  rw [lacksOperand_trim hamps (by decide)] at hconjunct
  exact hconjunct (lacks_of_end hamps hinner)

theorem WellFormed.of_group {inner : List Char} (h : Unsplit (Text.trim s))
    (hs : Text.trim s = '(' :: inner ++ [')']) (wellFormed : WellFormed inner) : WellFormed s :=
  WellFormed.of_unsplit h (hs ▸ wellFormed.closed.parentheses) (not_end (by decide) hs (by decide))
    (not_end (by decide) hs (by decide))

theorem WellFormed.of_firm (h : Unsplit (Text.trim s)) (firm : Firm (Text.trim s)) : WellFormed s := by
  obtain ⟨init, c, hs, -⟩ := (Text.tight_trim h.ne_nil).last
  obtain ⟨hbars, hamps⟩ := firm.last init c hs
  exact WellFormed.of_unsplit h firm.closed (not_end (by decide) hs hbars) (not_end (by decide) hs hamps)

/-- An expression that has a value, and all of which is looked at, is well formed. -/
theorem wellFormed_of_value (h : value lookup s = .ok b) (strict : Strict lookup s) : WellFormed s := by
  induction hlength : s.length using Nat.strongRecOn generalizing s b with
  | ind k ih =>
    have part : ∀ p ∈ (form s).parts, ∀ c, value lookup p = .ok c → Strict lookup p → WellFormed p :=
      fun p hp c hc hstrict => ih p.length (by have := form_shorter s p hp; omega) hc hstrict rfl
    have hfits := form_fits s
    cases hform : form s <;> rw [hform] at hfits part
    case blank => exact absurd hfits (not_blank_of_value h)
    case connected decisive parts =>
      have hparts := strict.operands hform h
      have wellFormed : ∀ p ∈ parts, WellFormed p := fun p hp =>
        part p hp _ (hparts p hp).2.choose_spec (hparts p hp).1
      have filled : ∀ p ∈ parts, Text.trim p ≠ [] := fun p hp => not_blank_of_value (hparts p hp).2.choose_spec
      cases decisive with
      | true => exact WellFormed.of_disjuncts hfits.1 wellFormed filled
      | false => exact WellFormed.of_conjuncts (hfits.2 rfl) hfits.1 wellFormed filled
    case negation count inner =>
      obtain ⟨hunsplit, hpos, before, hs, hle, hbefore⟩ := hfits
      have hne : before ≠ [] := fun hnil => by simp [hnil] at hle; omega
      obtain ⟨c, hc⟩ := negation_ok hform h
      exact WellFormed.of_negation hunsplit hs hne hbefore
        (part inner List.mem_cons_self c hc fun t reads => strict t (.negated hform reads))
    case group inner =>
      exact WellFormed.of_group hfits.1 hfits.2
        (part inner List.mem_cons_self b ((value_group hform).symm.trans h)
          fun t reads => strict t (.grouped hform reads))
    case atom a =>
      obtain ⟨hunsplit, rfl⟩ := hfits
      have hvalue : evalAtom lookup (Text.trim s) = .ok b := by
        rw [value_eq, evalBy, hform] at h
        exact h
      have hlenient := strict s (.self s)
      have hexists : existsArgument? (Text.trim s) = none := by
        cases hexists : existsArgument? (Text.trim s) with
        | none => rfl
        | some argument => exact absurd (Or.inr ⟨_, hform, Or.inl (by rw [hexists]; rfl)⟩) hlenient
      refine WellFormed.of_firm hunsplit (Firm.of_atom (Text.tight_trim hunsplit.ne_nil) hvalue hexists ?_)
      exact fun o ho hwritten => hlenient (Or.inr ⟨_, hform, Or.inr ⟨o, ho, hwritten⟩⟩)

end Values

/-! ### Conditions -/

/-- The condition that always holds is well formed. -/
theorem wellFormed_always : WellFormed always := by
  have hbars : findTop? bars top always = none := rfl
  refine ⟨by decide, not_lacks_of_none (by decide) hbars, ?_⟩
  rw [operands_of_none (by decide) hbars]
  exact List.forall_mem_singleton.mpr (not_lacks_of_none (by decide) rfl)

/-- A condition is refused if something malformed is read of it. -/
theorem evalBool_refused {lookup : Lookup} {expression : String} {part : List Char}
    (reads : Reads lookup (bare expression.toList) part) (malformed : Malformed part) (strict : Strict lookup part) :
    ∃ e, evalBool lookup expression = .error e := by
  cases hvalue : evalBool lookup expression with
  | error e => exact ⟨e, rfl⟩
  | ok b =>
    rw [evalBool_eq] at hvalue
    split at hvalue
    · cases hvalue
    · split at hvalue
      · next halways =>
        -- It is read as a whole, since it consists of nothing else.
        rw [halways] at reads
        cases reads with
        | self => exact absurd malformed wellFormed_always.not_malformed
        | operand h => cases h
        | negated h => cases h
        | grouped h => cases h
      · obtain ⟨c, hc⟩ := reads.ok hvalue
        exact absurd malformed (wellFormed_of_value hc strict).not_malformed

/-- A condition is refused if something malformed is read of it, provided all of that is looked at. A text with an
operand that decides has its value, whatever follows. The test of a path is never refused: it holds if its argument
names a value, and so it fails where the argument is no path. -/
theorem conditions_checked_as_read (lookup : Lookup) (expression : String) :
    (∀ part, Reads lookup (bare expression.toList) part → Malformed part → Strict lookup part →
      ∃ e, evalBool lookup expression = .error e) ∧
    (∀ part b, Decided lookup part b → value lookup part = .ok b) ∧
    ∀ argument, Closed argument → evalBool lookup (String.ofList (existsWord ++ enclosed argument)) =
      .ok (!(tested argument).isEmpty && (lookup (tested argument)).isSome) := by
  refine ⟨fun part reads malformed strict => evalBool_refused reads malformed strict, fun part b decided => ?_,
    fun argument h => ?_⟩
  · obtain ⟨before, p, after, hform, -, hp, undecided⟩ := decided
    rw [value_connected hform]
    exact connect_decided undecided hp
  · have hsound : Sound .or (existsWord ++ enclosed argument) := Sound.test h
    rw [hsound.evalBool, value_test h]

/-- The second operand of a conjunction is read where the first one holds, and refused if it is not closed. -/
theorem open_group_behind_truth_refused : ∃ e, evalBool (fun _ => none) "a == null && (b" = .error e := by
  have hform : form "a == null && (b".toList = .connected false (["a == null ".toList] ++ " (b".toList :: []) := rfl
  have hpart : form " (b".toList = .atom "(b".toList := rfl
  have strict : Strict (fun _ => none) " (b".toList := by
    intro t reads
    cases reads with
    | self =>
      rintro (⟨b, before, p, after, h, -⟩ | ⟨a, h, hlenient⟩)
      · cases hpart.symm.trans h
      · obtain rfl := Form.atom.inj (hpart.symm.trans h)
        rcases hlenient with hexists | ⟨o, ho, -, hbraces | hjson⟩
        · cases hexists
        · obtain rfl := List.mem_singleton.mp ho
          cases hbraces.1
        · obtain rfl := List.mem_singleton.mp ho
          rcases hjson.1 with hhead | hhead <;> cases hhead
    | operand h => cases hpart.symm.trans h
    | negated h => cases hpart.symm.trans h
    | grouped h => cases hpart.symm.trans h
  exact (conditions_checked_as_read (fun _ => none) "a == null && (b").1 " (b".toList
    (.operand hform (List.forall_mem_singleton.mpr rfl) (.self _)) (.unclosed (by decide)) strict

/-- What an operand that decides leaves unread, and what a test is given, can be anything. -/
theorem unread_conditions_pass :
    ¬Closed "true || (".toList ∧ evalBool (fun _ => none) "true || (" = .ok true ∧
      isPath "1 + 2".toList = false ∧ evalBool (fun _ => none) "exists(1 + 2)" = .ok false :=
  ⟨by decide, rfl, rfl, rfl⟩

-- Why it matters that all is looked at: a placeholder without its end is text, a group or a quote may stay open in text
-- with a placeholder and in JSON, and behind another operator of its kind the last one needs no right side.
example :
    let passes (s : String) : Prop := (evalBool (fun _ => some (.bool true)) s).toOption = some true
    passes "\x7b\x7bflag" ∧
      (¬Closed "\x7b\x7bflag\x7d\x7d (".toList ∧ passes "\x7b\x7bflag\x7d\x7d (") ∧
      (¬Closed "[\"\\\"\"]".toList ∧ passes "[\"\\\"\"]") ∧
      (operands bars "no == 1 || flag ||".toList = ["no == 1".toList, "flag".toList, []] ∧
        passes "no == 1 || flag ||") := by decide +kernel

end StepTree.Condition
