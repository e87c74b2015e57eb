import StepTree.Proofs.Condition.Sides

/-! # Operands that have a value

A text that stands for an operand is firm: its parentheses balance, its quotes are closed, and it does not end like
a connective. There are two exceptions, which are taken as they are written: text around placeholders and JSON. -/

namespace StepTree

/-! ### Numbers -/

namespace Literal

/-- A character of numbers. -/
def isNumberChar (c : Char) : Bool := isDigit c || c == '-' || c == '+' || c == '.' || c == 'e' || c == 'E'

theorem forall_mem_digits {s : List Char} {n : Nat} (h : digits? 10 s = some n) : ∀ c ∈ s, isDigit c = true := by
  have hfold : ∀ (s : List Char) (m : Nat), s.foldlM (digits?.step 10) m = some n → ∀ c ∈ s, isDigit c = true := by
    intro s
    induction s with
    | nil => exact fun _ _ => List.forall_mem_nil _
    | cons c s ih =>
      intro m hm
      rw [List.foldlM_cons, Option.bind_eq_bind, Option.bind_eq_some_iff] at hm
      obtain ⟨k, hk, hrest⟩ := hm
      refine List.forall_mem_cons.mpr ⟨?_, ih k hrest⟩
      cases hc : isDigit c with
      | true => rfl
      | false => cases (step_eq_none hc m).symm.trans hk
  unfold digits? at h
  split at h
  · cases h
  · exact hfold s 0 h

theorem isNumberChar_of_isDigit {c : Char} (h : isDigit c = true) : isNumberChar c = true := by
  simp [isNumberChar, h]

/-- Whoever reads digits has read characters of numbers. -/
theorem forall_mem_of_digits {s : List Char} (h : digits? 10 s ≠ none) : ∀ c ∈ s, isNumberChar c = true := by
  obtain ⟨n, hn⟩ := Option.ne_none_iff_exists'.mp h
  exact fun c hc => isNumberChar_of_isDigit (forall_mem_digits hn c hc)

theorem forall_mem_exponent {s : List Char} (h : exponent? s ≠ none) : ∀ c ∈ s, isNumberChar c = true := by
  unfold exponent? at h
  split at h
  · exact List.forall_mem_cons.mpr ⟨rfl, forall_mem_of_digits fun hnone => h (by rw [hnone]; rfl)⟩
  · exact List.forall_mem_cons.mpr ⟨rfl, forall_mem_of_digits fun hnone => h (by rw [hnone]; rfl)⟩
  · exact forall_mem_of_digits fun hnone => h (by rw [hnone]; rfl)

theorem forall_mem_signed {s : List Char} {bound : Nat} (h : signed? 10 bound s ≠ none) :
    ∀ c ∈ s, isNumberChar c = true := by
  unfold signed? at h
  split at h
  · exact List.forall_mem_cons.mpr ⟨rfl, forall_mem_of_digits fun hnone => h (by rw [hnone]; rfl)⟩
  · exact List.forall_mem_cons.mpr ⟨rfl, forall_mem_of_digits fun hnone => h (by rw [hnone]; rfl)⟩
  · exact forall_mem_of_digits fun hnone => h (by rw [hnone]; rfl)

/-- What follows the digits of a number is an exponent behind its mark. -/
theorem forall_mem_mark {c : Char} {rest : List Char} {digits : Option Nat} {f : Nat → Int → Nat × Int}
    (h : (digits.bind fun n => if c = 'e' ∨ c = 'E' then (exponent? rest).map (f n) else none) ≠ none) :
    ∀ d ∈ c :: rest, isNumberChar d = true := by
  obtain ⟨x, hx⟩ := Option.ne_none_iff_exists'.mp h
  obtain ⟨n, -, hn⟩ := Option.bind_eq_some_iff.mp hx
  split at hn
  · next hc =>
    refine List.forall_mem_cons.mpr ⟨?_, forall_mem_exponent fun hnone => by simp [hnone] at hn⟩
    rcases hc with rfl | rfl <;> rfl
  · cases hn

theorem forall_mem_magnitude {s : List Char} (h : magnitude? s ≠ none) : ∀ c ∈ s, isNumberChar c = true := by
  have whole : ∀ s : List Char, (∀ c ∈ s.dropWhile isDigit, isNumberChar c = true) →
      ∀ c ∈ s, isNumberChar c = true := by
    intro s hrest c hc
    rw [← List.takeWhile_append_dropWhile (p := isDigit) (l := s)] at hc
    rcases List.mem_append.mp hc with hc | hc
    · exact isNumberChar_of_isDigit (List.all_eq_true.mp List.all_takeWhile c hc)
    · exact hrest c hc
  unfold magnitude? at h
  dsimp only at h
  refine whole s ?_
  split at h
  · next rest hpoint =>
    rw [hpoint]
    refine List.forall_mem_cons.mpr ⟨rfl, whole rest ?_⟩
    cases hend : rest.dropWhile isDigit with
    | nil => exact List.forall_mem_nil _
    | cons c exponent =>
      rw [hend] at h
      exact forall_mem_mark h
  · cases hend : s.dropWhile isDigit with
    | nil => exact List.forall_mem_nil _
    | cons c exponent =>
      rw [hend] at h
      exact forall_mem_mark h

theorem forall_mem_decimal {s : List Char} (h : decimal? s ≠ none) : ∀ c ∈ s, isNumberChar c = true := by
  unfold decimal? at h
  split at h
  next negative body hsign =>
  have hbody : ∀ c ∈ body, isNumberChar c = true := forall_mem_magnitude fun hnone => h (by rw [hnone]; rfl)
  split at hsign
  · obtain ⟨-, rfl⟩ := Prod.mk.inj hsign
    exact List.forall_mem_cons.mpr ⟨rfl, hbody⟩
  · obtain ⟨-, rfl⟩ := Prod.mk.inj hsign
    exact List.forall_mem_cons.mpr ⟨rfl, hbody⟩
  · obtain ⟨-, rfl⟩ := Prod.mk.inj hsign
    exact hbody

end Literal

namespace Condition

open Template (Lookup)
open Nesting

/-! ### Firm texts -/

/-- The parentheses of the text balance, its quotes are closed, and it does not end like a connective. -/
structure Firm (s : List Char) : Prop where
  closed : Closed s
  last : ∀ init c, s = init ++ [c] → c ∉ bars ∧ c ∉ amps

theorem Firm.of_chars {s : List Char} (h : ∀ c ∈ s, isPlain c = true ∧ c ∉ bars ∧ c ∉ amps) : Firm s where
  closed := Closed.plain fun c hc => (h c hc).1
  last init c hs := (h c (by simp [hs])).2

theorem IsWord.firm {s : List Char} (h : IsWord s) : Firm s := by
  refine Firm.of_chars fun c hc => ?_
  obtain ⟨-, hplain, hsign, -⟩ := isWordChar_spec (h.chars c hc)
  exact ⟨hplain, not_mem_connectives hsign⟩

theorem Firm.number {s : List Char} (h : ∀ c ∈ s, Literal.isNumberChar c = true) : Firm s := by
  refine Firm.of_chars fun c hc => ?_
  have hne : ∀ d, Literal.isNumberChar d = false → c ≠ d := fun _ => ne_of_kind (h c hc)
  refine ⟨?_, by simp [bars, hne '|' rfl], by simp [amps, hne '&' rfl]⟩
  simp [isPlain, hne '\'' rfl, hne '"' rfl, hne '(' rfl, hne ')' rfl]

theorem Firm.quoted {s inner : List Char} (h : quoted? s = some inner) : Firm s := by
  unfold quoted? at h
  split at h
  · cases h
  · next q rest =>
    split at h
    · next hquote =>
      rw [Option.bind_eq_bind, Option.bind_eq_some_iff] at h
      obtain ⟨inner, hinner, hfree⟩ := h
      rw [Text.before?_eq_some] at hinner
      split at hfree
      · cases hfree
      · next hout =>
        rw [hinner]
        refine ⟨Closed.quoted hquote hout, fun init c hs => ?_⟩
        rw [← List.cons_append] at hs
        obtain ⟨-, rfl⟩ := List.append_singleton_inj.mp hs
        rcases hquote with rfl | rfl <;> decide
    · cases h

theorem placeholder?_eq_some {s inner rest : List Char} (h : Template.placeholder? s = some (inner, rest)) :
    s = Template.written inner ++ rest := by
  unfold Template.placeholder? at h
  split at h
  · next body =>
    split at h
    · next after hdrop =>
      obtain ⟨rfl, rfl⟩ := Prod.mk.inj (Option.some.inj h)
      have hbody := List.takeWhile_append_dropWhile (p := (!Template.isBrace ·)) (l := body)
      rw [hdrop] at hbody
      simp only [Template.written, List.cons_append, List.append_assoc, List.nil_append, hbody]
    · cases h
  · cases h

/-- A text that is one placeholder is its path between braces, with blanks around it. -/
theorem single?_eq_some {s path : List Char} (h : Template.single? s = some path) :
    ∃ inner, Text.trim s = Template.written inner ∧ path = Text.trim inner := by
  unfold Template.single? at h
  split at h
  · next inner hplaceholder =>
    refine ⟨inner, ?_, (Option.some.inj h).symm⟩
    rw [placeholder?_eq_some hplaceholder, List.append_nil]
  · cases h

theorem Firm.placeholder {s path : List Char} (h : Template.single? s = some path) (hpath : isPath path = true) :
    Firm (Text.trim s) := by
  obtain ⟨inner, hs, rfl⟩ := single?_eq_some h
  obtain ⟨before, after, hinner, hbefore, hafter⟩ := Text.trim_spec inner
  have blank : ∀ c, Text.isBlank c = true → isPlain c = true ∧ c ∉ bars ∧ c ∉ amps := fun c hc =>
    have hne : ∀ d, Text.isBlank d = false → c ≠ d := fun _ => ne_of_kind hc
    ⟨isPlain_of_blank hc, by simp [bars, hne '|' rfl], by simp [amps, hne '&' rfl]⟩
  have word : ∀ c ∈ Text.trim inner, isPlain c = true ∧ c ∉ bars ∧ c ∉ amps := fun c hc =>
    have hchar := isWordChar_spec ((IsWord.of_isPath hpath).chars c hc)
    ⟨hchar.2.1, not_mem_connectives hchar.2.2.1⟩
  refine Firm.of_chars fun c hc => ?_
  rw [hs, Template.written, hinner] at hc
  simp only [List.mem_cons, List.mem_append, List.not_mem_nil, or_false] at hc
  rcases hc with rfl | rfl | ((hc | hc) | hc) | rfl | rfl
  · decide
  · decide
  · exact blank c (hbefore c hc)
  · exact word c hc
  · exact blank c (hafter c hc)
  · decide
  · decide

/-- An operand that is taken as it is written: text with placeholders that is not just the placeholder of a path, or
JSON. -/
def TakenAsWritten (s : List Char) : Prop :=
  quoted? s = none ∧
    ((Text.occursIn ['\x7b', '\x7b'] s = true ∧ ∀ path, Template.single? s = some path → isPath path = false) ∨
      ((s.head? = some '[' ∨ s.head? = some '\x7b') ∧ (Json.read? s).isSome = true))

/-- A literal is a constant, a number, or JSON. -/
theorem Firm.literal {s : List Char} {v : Json} (h : literal? s = some v) :
    Firm s ∨ ((s.head? = some '[' ∨ s.head? = some '\x7b') ∧ (Json.read? s).isSome = true) := by
  unfold literal? at h
  split at h
  · next hs => exact Or.inl (hs ▸ IsWord.firm ⟨List.cons_ne_nil _ _, List.all_eq_true.mp rfl⟩)
  · split at h
    · next hs => exact Or.inl (hs ▸ IsWord.firm ⟨List.cons_ne_nil _ _, List.all_eq_true.mp rfl⟩)
    · split at h
      · next hs => exact Or.inl (hs ▸ IsWord.firm ⟨List.cons_ne_nil _ _, List.all_eq_true.mp rfl⟩)
      · split at h
        · next n hn =>
          exact Or.inl (Firm.number (Literal.forall_mem_signed (Option.ne_none_iff_exists'.mpr ⟨n, hn⟩)))
        · split at h
          · next x hx =>
            exact Or.inl (Firm.number (Literal.forall_mem_decimal (Option.ne_none_iff_exists'.mpr ⟨x, hx⟩)))
          · split at h
            · next hhead => exact Or.inr ⟨hhead, by simp [h]⟩
            · cases h

/-- An operand that has a value or a path is firm, unless it is taken as it is written. -/
theorem Firm.of_operand {lookup : Lookup} {s : List Char} {x : Operand} (h : operand lookup s = .ok x)
    (hwritten : ¬TakenAsWritten (Text.trim s)) : Firm (Text.trim s) := by
  unfold operand at h
  dsimp only at h
  split at h
  · cases h
  · split at h
    · next inner hquoted => exact Firm.quoted hquoted
    · next hquoted =>
      split at h
      · next path hsingle =>
        have hbraces : Text.occursIn ['\x7b', '\x7b'] (Text.trim s) = true := by
          obtain ⟨inner, hs, -⟩ := single?_eq_some hsingle
          rw [Text.trim_trim] at hs
          rw [Text.occursIn_iff, hs]
          exact ⟨[], inner ++ ['\x7d', '\x7d'], rfl⟩
        cases hpath : isPath path with
        | true =>
          have hfirm := Firm.placeholder hsingle hpath
          rwa [Text.trim_trim] at hfirm
        | false =>
          refine absurd ⟨hquoted, Or.inl ⟨hbraces, fun path' hpath' => ?_⟩⟩ hwritten
          obtain rfl := Option.some.inj (hsingle.symm.trans hpath')
          exact hpath
      · next hsingle =>
        split at h
        · next hbraces => exact absurd ⟨hquoted, Or.inl ⟨hbraces, by simp [hsingle]⟩⟩ hwritten
        · split at h
          · next v hliteral =>
            exact (Firm.literal hliteral).resolve_right fun hjson => hwritten ⟨hquoted, Or.inr hjson⟩
          · split at h
            · cases h
            · split at h
              · next hpath => exact (IsWord.of_isPath hpath).firm
              · cases h

/-! ### Comparisons -/

/-- The sides of a comparison; an expression that is none is its only side. -/
def sides (s : List Char) : List (List Char) :=
  match findComparison? s with
  | some (_, left, right) => [left, right]
  | none => [s]

theorem findComparison?_eq_some {s left right : List Char} {comparison : Comparison}
    (h : findComparison? s = some (comparison, left, right)) :
    ∃ op l r, (op, comparison) ∈ operators ∧ findTop? op top s = some (l, r) ∧ left = Text.trim l ∧
      right = Text.trim r := by
  obtain ⟨⟨op, c⟩, hmem, hfound⟩ := List.exists_of_findSome?_eq_some h
  obtain ⟨⟨l, r⟩, hsplit, heq⟩ := Option.map_eq_some_iff.mp hfound
  cases heq
  exact ⟨op, l, r, hmem, hsplit, rfl, rfl⟩

/-- A comparison is firm if its sides are. -/
theorem Firm.of_sides {s left right : List Char} {comparison : Comparison} (tight : Text.Tight s)
    (h : findComparison? s = some (comparison, left, right)) (hright : right ≠ []) (firm : Firm left)
    (firm' : Firm right) : Firm s := by
  obtain ⟨op, l, r, hmem, hfound, rfl, rfl⟩ := findComparison?_eq_some h
  obtain ⟨hs, -, -⟩ := findTop?_spec hfound
  have hop : ∀ o ∈ operators, Closed o.1 := by decide
  constructor
  · rw [hs]
    exact ((firm.closed.of_trim).append (hop _ hmem)).append firm'.closed.of_trim
  · intro init c hlast
    obtain ⟨init', d, hs', hd⟩ := tight.last
    obtain ⟨-, rfl⟩ := List.append_singleton_inj.mp (hlast.symm.trans hs')
    -- The end of the whole is the end of the right side.
    obtain ⟨rest, e, hr⟩ := (List.eq_nil_or_concat r).resolve_left fun hnil => hright (by rw [hnil]; rfl)
    rw [List.concat_eq_append] at hr
    rw [hr, ← List.append_assoc, hlast] at hs
    obtain ⟨-, rfl⟩ := List.append_singleton_inj.mp hs
    obtain ⟨init'', htrim⟩ := Text.trim_last hr hd
    exact firm'.last init'' c htrim

theorem ok_of_bind {α β : Type} {x : Except EvalError α} {f : α → Except EvalError β} {b : β} (h : x >>= f = .ok b) :
    ∃ a, x = .ok a ∧ f a = .ok b := by
  cases x with
  | error e => cases h
  | ok a => exact ⟨a, rfl, h⟩

/-- An atom that has a value is firm, unless it tests a path or one of its sides is taken as it is written. -/
theorem Firm.of_atom {lookup : Lookup} {s : List Char} {b : Bool} (tight : Text.Tight s)
    (h : evalAtom lookup s = .ok b) (hexists : existsArgument? s = none) (hsides : ∀ o ∈ sides s, ¬TakenAsWritten o) :
    Firm s := by
  have firm : ∀ o x, operand lookup (Text.trim o) = .ok x → Text.trim o ∈ sides s → Firm (Text.trim o) := by
    intro o x hoperand ho
    have hfirm := Firm.of_operand hoperand
    rw [Text.trim_trim] at hfirm
    exact hfirm (hsides _ ho)
  unfold evalAtom at h
  rw [hexists] at h
  cases hcomparison : findComparison? s with
  | none =>
    have hsides' : sides s = [s] := by rw [sides, hcomparison]
    rw [hcomparison] at h
    obtain ⟨x, hx, -⟩ := ok_of_bind h
    have hfirm := firm s x
    rw [tight.trim] at hfirm
    exact hfirm hx (by rw [hsides']; exact List.mem_cons_self)
  | some found =>
    obtain ⟨comparison, left, right⟩ := found
    have hsides' : sides s = [left, right] := by rw [sides, hcomparison]
    rw [hcomparison] at h
    dsimp only at h
    split at h
    · cases h
    · next hfilled =>
      obtain ⟨-, hright⟩ := not_or.mp (by simpa using hfilled)
      obtain ⟨x, hx, h⟩ := ok_of_bind h
      obtain ⟨y, hy, -⟩ := ok_of_bind h
      obtain ⟨op, l, r, -, -, rfl, rfl⟩ := findComparison?_eq_some hcomparison
      exact Firm.of_sides tight hcomparison hright (firm l x hx (by rw [hsides']; exact List.mem_cons_self))
        (firm r y hy (by rw [hsides']; exact List.mem_cons_of_mem _ List.mem_cons_self))

end Condition

end StepTree
