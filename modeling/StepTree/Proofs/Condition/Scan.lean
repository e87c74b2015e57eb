import StepTree.Condition.Scan

/-! # Scanning texts that are put together

A text whose parentheses balance and whose quotes are closed does not change what surrounds a place, so an
operator that is looked for in a longer text is found in the parts that lie open. -/

namespace StepTree

/-! ### Blanks -/

namespace Text
variable {s : List Char} {c : Char}

/-- A text that neither begins nor ends with a blank, and is not empty. -/
structure Tight (s : List Char) : Prop where
  head : ∃ c rest, s = c :: rest ∧ isBlank c = false
  last : ∃ init c, s = init ++ [c] ∧ isBlank c = false

theorem trimEnd_concat (s : List Char) (c : Char) :
    trimEnd (s ++ [c]) = if isBlank c then trimEnd s else s ++ [c] := by
  cases h : isBlank c <;> simp [trimEnd, h]

theorem Tight.trim (h : Tight s) : trim s = s := by
  obtain ⟨c, rest, hs, hc⟩ := h.head
  obtain ⟨init, d, hs', hd⟩ := h.last
  have hstart : trimStart s = s := by rw [hs, trimStart, List.dropWhile_cons, hc]; rfl
  rw [Text.trim, hstart, hs', trimEnd_concat, hd]
  rfl

theorem Tight.ne_nil (h : Tight s) : s ≠ [] := by
  obtain ⟨c, rest, rfl, -⟩ := h.head
  exact List.cons_ne_nil c rest

theorem trim_cons_of_blank (h : isBlank c = true) (s : List Char) : trim (c :: s) = trim s := by
  simp [trim, trimStart, h]

theorem trim_concat_of_blank (h : isBlank c = true) (s : List Char) : trim (s ++ [c]) = trim s := by
  unfold trim trimStart
  rw [List.dropWhile_append]
  split
  · next hnil =>
    rw [List.isEmpty_iff.mp hnil, List.dropWhile_cons, h]
    rfl
  · rw [trimEnd_concat, h]
    rfl

/-- A text is what remains of it when it is trimmed, and blanks around that. -/
theorem trim_spec (s : List Char) :
    ∃ before after, s = before ++ trim s ++ after ∧ (∀ c ∈ before, isBlank c = true) ∧
      ∀ c ∈ after, isBlank c = true := by
  refine ⟨s.takeWhile isBlank, ((trimStart s).reverse.takeWhile isBlank).reverse, ?_, ?_, ?_⟩
  · have hend : trim s ++ ((trimStart s).reverse.takeWhile isBlank).reverse = trimStart s := by
      rw [trim, trimEnd, ← List.reverse_append, List.takeWhile_append_dropWhile, List.reverse_reverse]
    rw [List.append_assoc, hend, trimStart, List.takeWhile_append_dropWhile]
  · intro c hc
    exact List.all_eq_true.mp List.all_takeWhile c hc
  · intro c hc
    exact List.all_eq_true.mp List.all_takeWhile c (List.mem_reverse.mp hc)

theorem trim_eq_nil_iff : trim s = [] ↔ ∀ c ∈ s, isBlank c = true := by
  constructor
  · intro h c hc
    obtain ⟨before, after, hs, hbefore, hafter⟩ := trim_spec s
    rw [hs, h, List.append_nil] at hc
    exact (List.mem_append.mp hc).elim (hbefore c) (hafter c)
  · intro h
    have hstart : trimStart s = [] := by
      rw [trimStart, ← List.append_nil s, List.dropWhile_append_of_pos h, List.dropWhile_nil]
    rw [trim, hstart]
    rfl

theorem tight_trim (h : trim s ≠ []) : Tight (trim s) := by
  have hend : (trimStart s).reverse.dropWhile isBlank ≠ [] := fun hnil => h (by rw [trim, trimEnd, hnil]; rfl)
  have hstart : s.dropWhile isBlank ≠ [] := fun hnil => hend (by rw [trimStart, hnil]; rfl)
  constructor
  · -- What is trimmed at the end does not reach the first character that is not blank.
    have hsplit : trim s ++ ((trimStart s).reverse.takeWhile isBlank).reverse = s.dropWhile isBlank := by
      rw [trim, trimEnd, ← List.reverse_append, List.takeWhile_append_dropWhile, List.reverse_reverse, trimStart]
    obtain ⟨c, rest, htrim⟩ := List.exists_cons_of_ne_nil h
    refine ⟨c, rest, htrim, ?_⟩
    have hhead := List.head_dropWhile_not isBlank hstart
    rw [htrim] at hsplit
    simp only [← hsplit, List.cons_append, List.head_cons] at hhead
    exact hhead
  · obtain ⟨c, rest, hreverse⟩ := List.exists_cons_of_ne_nil hend
    have hhead := List.head_dropWhile_not isBlank hend
    simp only [hreverse, List.head_cons] at hhead
    exact ⟨rest.reverse, c, by rw [trim, trimEnd, hreverse, List.reverse_cons], hhead⟩

/-- A character at the end that is no blank stays there. -/
theorem trim_last {init : List Char} (hs : s = init ++ [c]) (hc : isBlank c = false) :
    ∃ init', trim s = init' ++ [c] := by
  obtain ⟨before, after, hsplit, hbefore, hafter⟩ := trim_spec s
  have hnone : ∀ blanks t, (∀ d ∈ blanks, isBlank d = true) → s = t ++ blanks → blanks = [] := by
    intro blanks t hblanks ht
    rcases List.eq_nil_or_concat blanks with hnil | ⟨rest, d, rfl⟩
    · exact hnil
    · rw [List.concat_eq_append, ← List.append_assoc, hs] at ht
      obtain ⟨-, rfl⟩ := List.append_singleton_inj.mp ht
      cases hc.symm.trans (hblanks c (by simp))
  have hend : after = [] := hnone after _ hafter hsplit
  rw [hend, List.append_nil] at hsplit
  rcases List.eq_nil_or_concat (trim s) with hnil | ⟨rest, d, hrest⟩
  · rw [hnil, List.append_nil] at hsplit
    have hbefore' : before = [] := hnone before [] hbefore hsplit
    rw [hsplit, hbefore'] at hs
    cases List.nil_eq_append_iff.mp hs |>.2
  · rw [List.concat_eq_append] at hrest
    rw [hrest, ← List.append_assoc, hs] at hsplit
    obtain ⟨-, rfl⟩ := List.append_singleton_inj.mp hsplit
    exact ⟨rest, hrest⟩

end Text

namespace Condition

/-! ### What surrounds a place -/

/-- A character that changes nothing about what surrounds a place outside quotes. -/
def isPlain (c : Char) : Bool := c != '\'' && c != '"' && c != '(' && c != ')'

/-- A character of a kind is none outside it. -/
theorem ne_of_kind {p : Char → Bool} {c d : Char} (hc : p c = true) (hd : p d = false) : c ≠ d := by
  rintro rfl
  cases hd.symm.trans hc

theorem isPlain_of_blank {c : Char} (h : Text.isBlank c = true) : isPlain c = true := by
  have hne : ∀ d, Text.isBlank d = false → c ≠ d := fun _ => ne_of_kind h
  simp [isPlain, hne '\'' rfl, hne '"' rfl, hne '(' rfl, hne ')' rfl]

namespace Nesting

/-- What surrounds the place after a text. -/
def after (n : Nesting) (s : List Char) : Nesting := s.foldl next n

@[simp] theorem after_nil (n : Nesting) : n.after [] = n := rfl

@[simp] theorem after_cons (n : Nesting) (c : Char) (s : List Char) : n.after (c :: s) = (n.next c).after s := rfl

@[simp] theorem after_append (n : Nesting) (s t : List Char) : n.after (s ++ t) = (n.after s).after t :=
  List.foldl_append

theorem isTop_iff {n : Nesting} : n.isTop = true ↔ n = top := by
  cases n
  simp [isTop, top]

/-- What surrounds the place after a text in which no parenthesis closes that was not opened. -/
def after? (n : Nesting) : List Char → Option Nesting
  | [] => some n
  | c :: s => if c = ')' ∧ n.quote.isNone ∧ n.depth = 0 then none else (n.next c).after? s

theorem after?_append (n : Nesting) (s t : List Char) :
    n.after? (s ++ t) = (n.after? s).bind (·.after? t) := by
  induction s generalizing n with
  | nil => rfl
  | cons c s ih =>
    rw [List.cons_append, after?, after?]
    split
    · rfl
    · exact ih _

theorem after_of_after? {n m : Nesting} {s : List Char} (h : n.after? s = some m) : n.after s = m := by
  induction s generalizing n with
  | nil => exact Option.some.inj h
  | cons c s ih =>
    rw [after?] at h
    split at h
    · cases h
    · exact ih h

/-- The place inside more parentheses. -/
def deeper (n : Nesting) (k : Nat) : Nesting := { n with depth := n.depth + k }

theorem next_deeper {n : Nesting} {c : Char} (h : ¬(c = ')' ∧ n.quote.isNone ∧ n.depth = 0)) (k : Nat) :
    (n.deeper k).next c = (n.next c).deeper k := by
  obtain ⟨quote, depth⟩ := n
  cases quote with
  | some q =>
    simp only [next, deeper]
    split <;> rfl
  | none =>
    simp only [next, deeper]
    split
    · rfl
    · split
      · simp [Nat.add_right_comm]
      · split
        · next hc =>
          have hdepth : depth ≠ 0 := fun hzero => h ⟨hc, rfl, hzero⟩
          simp only [mk.injEq, true_and]
          omega
        · rfl

/-- A text in which no parenthesis closes that was not opened does the same inside more parentheses. -/
theorem after?_deeper {n m : Nesting} {s : List Char} (h : n.after? s = some m) (k : Nat) :
    (n.deeper k).after? s = some (m.deeper k) := by
  induction s generalizing n with
  | nil =>
    obtain rfl := Option.some.inj h
    rfl
  | cons c s ih =>
    rw [after?] at h ⊢
    split at h
    · cases h
    · next hopen =>
      have hopen' : ¬(c = ')' ∧ (n.deeper k).quote.isNone ∧ (n.deeper k).depth = 0) :=
        fun hclose => hopen ⟨hclose.1, hclose.2.1, by have := hclose.2.2; simp only [deeper] at this; omega⟩
      rw [if_neg hopen', next_deeper hopen]
      exact ih h

end Nesting

open Nesting

theorem isBalanced_iff {n : Nesting} {s : List Char} :
    isBalanced n s = true ↔ ∃ quote, n.after? s = some ⟨quote, 0⟩ := by
  induction s generalizing n with
  | nil =>
    obtain ⟨quote, depth⟩ := n
    simp [isBalanced, Nesting.after?]
  | cons c s ih =>
    rw [isBalanced, Nesting.after?]
    split
    · simp
    · exact ih

/-- The parentheses of a text balance, and no quote is left open. -/
def Closed (s : List Char) : Prop := top.after? s = some top

instance (s : List Char) : Decidable (Closed s) := inferInstanceAs (Decidable (top.after? s = some top))

namespace Closed
variable {s t : List Char}

theorem nil : Closed [] := rfl

theorem append (hs : Closed s) (ht : Closed t) : Closed (s ++ t) := by
  rw [Closed, Nesting.after?_append, hs]
  exact ht

theorem after (h : Closed s) : top.after s = top := Nesting.after_of_after? h

theorem balanced (h : Closed s) : isBalanced .top s = true := isBalanced_iff.mpr ⟨none, h⟩

theorem plain (h : ∀ c ∈ s, isPlain c = true) : Closed s := by
  induction s with
  | nil => rfl
  | cons c s ih =>
    have hc := h c List.mem_cons_self
    simp only [isPlain, Bool.and_eq_true, bne_iff_ne, ne_eq] at hc
    obtain ⟨⟨⟨hsingle, hdouble⟩, hopen⟩, hclose⟩ := hc
    have hnext : top.next c = top := by simp [next, top, hsingle, hdouble, hopen, hclose]
    rw [Closed, Nesting.after?, if_neg (fun hc => hclose hc.1), hnext]
    exact ih fun d hd => h d (List.mem_cons_of_mem c hd)

theorem of_trim (h : Closed (Text.trim s)) : Closed s := by
  obtain ⟨before, after, hs, hbefore, hafter⟩ := Text.trim_spec s
  rw [hs]
  exact ((plain fun c hc => isPlain_of_blank (hbefore c hc)).append h).append
    (plain fun c hc => isPlain_of_blank (hafter c hc))

theorem parentheses (h : Closed s) : Closed ('(' :: s ++ [')']) := by
  have hinner : (top.deeper 1).after? s = some (top.deeper 1) := Nesting.after?_deeper h 1
  have hopened : top.after? ('(' :: s ++ [')']) = (top.deeper 1).after? (s ++ [')']) := rfl
  rw [Closed, hopened, Nesting.after?_append, hinner]
  rfl

end Closed

theorem Closed.quoted {s : List Char} {quote : Char} (hquote : quote = '\'' ∨ quote = '"') (h : quote ∉ s) :
    Closed (quote :: s ++ [quote]) := by
  have inside : ∀ s : List Char, quote ∉ s → Nesting.after? ⟨some quote, 0⟩ (s ++ [quote]) = some top := by
    intro s hs
    induction s with
    | nil => simp [Nesting.after?, next, top]
    | cons c s ih =>
      obtain ⟨hc, hs⟩ : quote ≠ c ∧ quote ∉ s := by simpa using hs
      simpa [Nesting.after?, next, Ne.symm hc] using ih hs
  have hopened : top.after? (quote :: s ++ [quote]) = Nesting.after? ⟨some quote, 0⟩ (s ++ [quote]) := by
    rcases hquote with rfl | rfl <;> rfl
  rw [Closed, hopened]
  exact inside s h

/-! ### What lies open -/

/-- The characters of a text at its top level, quotes and parentheses there included. -/
def exposed (n : Nesting) : List Char → List Char
  | [] => []
  | c :: s => if n.isTop then c :: exposed (n.next c) s else exposed (n.next c) s

@[simp] theorem exposed_append (n : Nesting) (s t : List Char) :
    exposed n (s ++ t) = exposed n s ++ exposed (n.after s) t := by
  induction s generalizing n with
  | nil => rfl
  | cons c s ih =>
    rw [List.cons_append, exposed, exposed, after_cons, ih]
    split <;> rfl

theorem exposed_subset {n : Nesting} {s : List Char} : exposed n s ⊆ s := by
  induction s generalizing n with
  | nil => exact List.Subset.refl []
  | cons c s ih =>
    rw [exposed]
    split
    · exact List.cons_subset_cons c ih
    · exact List.subset_cons_of_subset c ih

/-- Nothing lies open inside parentheses. -/
theorem exposed_deeper {n m : Nesting} {s : List Char} (h : n.after? s = some m) (k : Nat) :
    exposed (n.deeper (k + 1)) s = [] := by
  induction s generalizing n with
  | nil => rfl
  | cons c s ih =>
    rw [Nesting.after?] at h
    split at h
    · cases h
    · next hopen =>
      have hinside : (n.deeper (k + 1)).isTop = false := by simp [isTop, deeper]
      rw [exposed, hinside, next_deeper hopen]
      exact ih h

theorem exposed_parentheses {s : List Char} (h : Closed s) : exposed top ('(' :: s ++ [')']) = ['('] := by
  have hinner : exposed (top.deeper 1) s = [] := exposed_deeper h 0
  have hafter : (top.deeper 1).after s = top.deeper 1 := after_of_after? (after?_deeper h 1)
  have hopened : exposed top ('(' :: s ++ [')']) = '(' :: exposed (top.deeper 1) (s ++ [')']) := rfl
  rw [hopened, exposed_append, hinner, hafter]
  rfl

theorem exposed_quoted {s : List Char} {quote : Char} (hquote : quote = '\'' ∨ quote = '"') (h : quote ∉ s) :
    exposed top (quote :: s ++ [quote]) = [quote] := by
  have inside : ∀ s : List Char, quote ∉ s → exposed ⟨some quote, 0⟩ (s ++ [quote]) = [] := by
    intro s hs
    induction s with
    | nil => rfl
    | cons c s ih =>
      obtain ⟨hc, hs⟩ : quote ≠ c ∧ quote ∉ s := by simpa using hs
      simpa [exposed, isTop, next, Ne.symm hc] using ih hs
  have hopened : exposed top (quote :: s ++ [quote]) = quote :: exposed ⟨some quote, 0⟩ (s ++ [quote]) := by
    rcases hquote with rfl | rfl <;> rfl
  rw [hopened, inside s h]

/-! ### Looking for an operator -/

section Operators
variable {o d : Char} {op s : List Char} {n : Nesting}

/-- An operator whose first character does not lie open does not stand at the front. -/
theorem not_here {c : Char} (h : o ∉ exposed n (c :: s)) (t : List Char) :
    (n.isTop && (o :: op).isPrefixOf (c :: t)) = false ∧ o ∉ exposed (n.next c) s := by
  rw [exposed] at h
  cases htop : n.isTop <;> rw [htop] at h
  · exact ⟨rfl, h⟩
  · obtain ⟨hc, hs⟩ : o ≠ c ∧ o ∉ exposed (n.next c) s := by simpa using h
    exact ⟨by simp [List.isPrefixOf, hc], hs⟩

/-- An operator whose first character does not lie open in a text is looked for behind the text. -/
theorem findTop?_through (h : o ∉ exposed n s) (t : List Char) :
    findTop? (o :: op) n (s ++ t) =
      (findTop? (o :: op) (n.after s) t).map fun (left, right) => (s ++ left, right) := by
  induction s generalizing n with
  | nil => simp
  | cons c s ih =>
    obtain ⟨hmiss, hrest⟩ := not_here h (s ++ t)
    rw [List.cons_append, findTop?, hmiss, after_cons, if_neg Bool.false_ne_true, ih hrest]
    cases findTop? (o :: op) ((n.next c).after s) t <;> rfl

/-- An operator whose first character does not lie open is not found. -/
theorem findTop?_none (h : o ∉ exposed n s) : findTop? (o :: op) n s = none := by
  have hthrough : findTop? (o :: op) n (s ++ []) = _ := findTop?_through h []
  rw [List.append_nil] at hthrough
  rw [hthrough]
  rfl

theorem findTop?_here (h : op ≠ []) (t : List Char) : findTop? op top (op ++ t) = some ([], t) := by
  obtain ⟨o, op, rfl⟩ := List.exists_cons_of_ne_nil h
  have hprefix : (o :: op).isPrefixOf (o :: op ++ t) = true := List.isPrefixOf_iff_prefix.mpr (List.prefix_append _ t)
  rw [List.cons_append] at hprefix ⊢
  rw [findTop?, hprefix]
  simp [isTop, top]

/-- The first occurrence splits the text, and there is none before it. -/
theorem findTop?_spec {left right : List Char} (h : findTop? op n s = some (left, right)) :
    s = left ++ op ++ right ∧ n.after left = top ∧ (op ≠ [] → findTop? op n left = none) := by
  induction s generalizing n left with
  | nil => cases h
  | cons c s ih =>
    rw [findTop?] at h
    split at h
    · next hhere =>
      obtain ⟨htop, hprefix⟩ := Bool.and_eq_true_iff.mp hhere
      obtain ⟨t, ht⟩ := List.isPrefixOf_iff_prefix.mp hprefix
      cases h
      rw [← ht, List.drop_left]
      exact ⟨rfl, isTop_iff.mp htop, fun _ => rfl⟩
    · next hmiss =>
      obtain ⟨⟨l, r⟩, hfound, heq⟩ := Option.map_eq_some_iff.mp h
      cases heq
      obtain ⟨rfl, htop, hnone⟩ := ih hfound
      refine ⟨by simp, htop, fun hop => ?_⟩
      have hmiss' : ¬(n.isTop && op.isPrefixOf (c :: l)) = true := by
        intro hhere
        obtain ⟨htop, hprefix⟩ := Bool.and_eq_true_iff.mp hhere
        refine hmiss (Bool.and_eq_true_iff.mpr ⟨htop, List.isPrefixOf_iff_prefix.mpr ?_⟩)
        have hlonger : c :: l <+: c :: (l ++ op ++ right) := ⟨op ++ right, by simp⟩
        exact (List.isPrefixOf_iff_prefix.mp hprefix).trans hlonger
      rw [findTop?, if_neg hmiss', hnone hop]
      rfl

/-- A text that has a character outside the operator behind it begins with the operator by itself. -/
theorem prefix_append_iff (h : d ∉ op) (t : List Char) : op <+: s ++ d :: t ↔ op <+: s := by
  constructor
  · intro hprefix
    rcases List.prefix_or_prefix_of_prefix hprefix (List.prefix_append s (d :: t)) with hs | ⟨rest, rfl⟩
    · exact hs
    · cases rest with
      | nil => exact ⟨[], by simp⟩
      | cons r rest =>
        obtain ⟨rfl, -⟩ := List.cons_prefix_cons.mp ((List.prefix_append_right_inj s).mp hprefix)
        simp at h
  · exact fun hprefix => hprefix.trans (List.prefix_append s _)

/-- An operator is found in the first part of a text or in the second, unless it reaches over the border. -/
theorem findTop?_append (h : d ∉ op) (t : List Char) :
    findTop? op n (s ++ d :: t) =
      match findTop? op n s with
      | some (left, right) => some (left, right ++ d :: t)
      | none => (findTop? op (n.after s) (d :: t)).map fun (left, right) => (s ++ left, right) := by
  induction s generalizing n with
  | nil => simp [findTop?]
  | cons c s ih =>
    have hprefix : op.isPrefixOf (c :: (s ++ d :: t)) = op.isPrefixOf (c :: s) := by
      rw [Bool.eq_iff_iff, List.isPrefixOf_iff_prefix, List.isPrefixOf_iff_prefix]
      exact prefix_append_iff (s := c :: s) h t
    rw [List.cons_append, findTop?, findTop?, hprefix, ih, after_cons]
    split
    · next hhere =>
      obtain ⟨-, hprefix⟩ := Bool.and_eq_true_iff.mp hhere
      obtain ⟨rest, hrest⟩ := List.isPrefixOf_iff_prefix.mp hprefix
      have happend : c :: (s ++ d :: t) = op ++ (rest ++ d :: t) := by rw [← List.append_assoc, hrest]; rfl
      rw [happend, ← hrest, List.drop_left, List.drop_left]
    · cases findTop? op (n.next c) s with
      | some found => rfl
      | none => cases findTop? op ((n.next c).after s) (d :: t) <;> rfl

/-- The first occurrence in a text is not behind the first one in an end of it. -/
theorem findTop?_suffix {left right : List Char} (s : List Char) (n : Nesting) {t : List Char}
    (h : findTop? op (n.after s) t = some (left, right)) :
    ∃ left' right', findTop? op n (s ++ t) = some (left', right') ∧ right.length ≤ right'.length := by
  induction s generalizing n with
  | nil => exact ⟨left, right, h, Nat.le_refl _⟩
  | cons c s ih =>
    rw [List.cons_append, findTop?]
    split
    · obtain ⟨ht, -, -⟩ := findTop?_spec h
      refine ⟨[], _, rfl, ?_⟩
      have hlength := congrArg List.length ht
      simp only [List.length_append, List.length_drop, List.length_cons] at hlength ⊢
      omega
    · obtain ⟨left', right', hfound, hle⟩ := ih (n.next c) h
      rw [hfound]
      exact ⟨c :: left', right', rfl, hle⟩

/-! ### Splitting at an operator -/

theorem splitFrom_skip (op : List Char) (n : Nesting) (s t : List Char) :
    splitFrom op n s.length (s ++ t) = splitFrom op n 0 t := by
  induction s with
  | nil => rfl
  | cons c s ih => simpa [splitFrom] using ih

/-- A text is split at the first occurrence of the operator, and so is what follows it. -/
theorem splitFrom_eq (hop : op ≠ []) (n : Nesting) (s : List Char) :
    splitFrom op n 0 s =
      match findTop? op n s with
      | some (left, right) => left :: splitFrom op top 0 right
      | none => [s] := by
  induction s generalizing n with
  | nil => rfl
  | cons c s ih =>
    rw [splitFrom, findTop?]
    split
    · next hhere =>
      obtain ⟨htop, hprefix⟩ := Bool.and_eq_true_iff.mp hhere
      obtain ⟨o, op, rfl⟩ := List.exists_cons_of_ne_nil hop
      obtain ⟨t, ht⟩ := List.isPrefixOf_iff_prefix.mp hprefix
      obtain ⟨rfl, rfl⟩ := List.cons.inj ht
      rw [isTop_iff.mp htop]
      simpa using splitFrom_skip (o :: op) top op t
    · rw [ih]
      cases findTop? op (n.next c) s <;> rfl

theorem splitFrom_ne_nil (hop : op ≠ []) (n : Nesting) (s : List Char) : splitFrom op n 0 s ≠ [] := by
  rw [splitFrom_eq hop]
  split <;> exact List.cons_ne_nil _ _

/-- Only the empty text is one empty piece. -/
theorem splitFrom_eq_empty (hop : op ≠ []) : splitFrom op n 0 s = [[]] ↔ s = [] := by
  rw [splitFrom_eq hop]
  cases hs : findTop? op n s with
  | none => simp
  | some found =>
    obtain ⟨rfl, -, -⟩ := findTop?_spec hs
    simp [splitFrom_ne_nil hop, hop]

theorem dropEmptyEnd_cons {pieces : List (List Char)} (h : pieces ≠ []) (p : List Char) :
    dropEmptyEnd (p :: pieces) = p :: dropEmptyEnd pieces := by
  obtain ⟨q, rest, rfl⟩ := List.exists_cons_of_ne_nil h
  unfold dropEmptyEnd
  rw [List.getLast?_cons_cons, List.dropLast_cons_of_ne_nil h]
  split <;> rfl

theorem dropEmptyEnd_eq_nil {pieces : List (List Char)} (h : dropEmptyEnd pieces = []) :
    pieces = [] ∨ pieces = [[]] := by
  cases pieces with
  | nil => exact Or.inl rfl
  | cons p rest =>
    by_cases hrest : rest = []
    · subst hrest
      by_cases hp : p = []
      · exact Or.inr (by rw [hp])
      · simp [dropEmptyEnd, hp] at h
    · rw [dropEmptyEnd_cons hrest] at h
      cases h

/-- A text is split just if something follows the first occurrence of the operator. -/
theorem splitTop?_eq (hop : op ≠ []) (s : List Char) :
    splitTop? op s =
      match findTop? op top s with
      | none => none
      | some (_, []) => none
      | some (left, right) => some (left :: dropEmptyEnd (splitFrom op top 0 right)) := by
  unfold splitTop?
  rw [splitFrom_eq hop]
  cases hs : findTop? op top s with
  | none =>
    unfold dropEmptyEnd
    dsimp only
    split <;> rfl
  | some found =>
    obtain ⟨left, right⟩ := found
    dsimp only
    rw [dropEmptyEnd_cons (splitFrom_ne_nil hop top right)]
    cases right with
    | nil => rfl
    | cons c right =>
      have hmore : dropEmptyEnd (splitFrom op top 0 (c :: right)) ≠ [] := by
        intro hnil
        rcases dropEmptyEnd_eq_nil hnil with h | h
        · exact splitFrom_ne_nil hop _ _ h
        · cases (splitFrom_eq_empty hop).mp h
      have hlength := List.length_pos_iff.mpr hmore
      exact if_pos (by simpa using hlength)

theorem splitTop?_eq_none (hop : op ≠ []) :
    splitTop? op s = none ↔ ∀ left right, findTop? op top s = some (left, right) → right = [] := by
  rw [splitTop?_eq hop]
  cases findTop? op top s with
  | none => simp
  | some found => obtain ⟨left, _ | ⟨c, right⟩⟩ := found <;> simp

theorem splitTop?_eq_some (hop : op ≠ []) {parts : List (List Char)} :
    splitTop? op s = some parts ↔ ∃ left right, findTop? op top s = some (left, right) ∧ right ≠ [] ∧
      parts = left :: dropEmptyEnd (splitFrom op top 0 right) := by
  rw [splitTop?_eq hop]
  cases findTop? op top s with
  | none => simp
  | some found =>
    obtain ⟨left, _ | ⟨c, right⟩⟩ := found
    · simp
    · constructor
      · intro h
        exact ⟨left, c :: right, rfl, List.cons_ne_nil c right, (Option.some.inj h).symm⟩
      · rintro ⟨left', right', hfound, -, rfl⟩
        obtain ⟨rfl, rfl⟩ := Prod.mk.inj (Option.some.inj hfound)
        rfl

/-- What holds of a text that is one piece, and is handed on from what follows an occurrence to the whole text, holds
of every text and its pieces. -/
theorem splitFrom_induction (hop : op ≠ []) {P : List Char → List (List Char) → Prop}
    (one : ∀ s, findTop? op top s = none → P s [s])
    (more : ∀ left right, findTop? op top (left ++ op ++ right) = some (left, right) →
      P right (splitFrom op top 0 right) → P (left ++ op ++ right) (left :: splitFrom op top 0 right))
    (s : List Char) : P s (splitFrom op top 0 s) := by
  induction hlength : s.length using Nat.strongRecOn generalizing s with
  | ind k ih =>
    rw [splitFrom_eq hop]
    cases hs : findTop? op top s with
    | none => exact one s hs
    | some found =>
      obtain ⟨left, right⟩ := found
      obtain ⟨rfl, -, -⟩ := findTop?_spec hs
      have hshorter : right.length < k := by
        have := List.length_pos_iff.mpr hop
        simp only [List.length_append] at hlength
        omega
      exact more left right hs (ih _ hshorter right rfl)

theorem length_piece (hop : op ≠ []) (s : List Char) : ∀ p ∈ splitFrom op top 0 s, p.length ≤ s.length := by
  refine splitFrom_induction hop (P := fun s pieces => ∀ p ∈ pieces, p.length ≤ s.length) ?_ ?_ s
  · exact fun s _ => List.forall_mem_singleton.mpr (Nat.le_refl _)
  · intro left right _ ih
    refine List.forall_mem_cons.mpr ⟨?_, fun p hp => ?_⟩
    · simp only [List.length_append]
      omega
    · have := ih p hp
      simp only [List.length_append]
      omega

/-- The last piece is not empty if the text does not end like the operator. -/
theorem dropEmptyEnd_splitFrom (hop : op ≠ []) (h : d ∉ op) (init : List Char) :
    dropEmptyEnd (splitFrom op top 0 (init ++ [d])) = splitFrom op top 0 (init ++ [d]) := by
  have hlast : ∀ s : List Char, (∃ init, s = init ++ [d]) → (splitFrom op top 0 s).getLast? ≠ some [] := by
    refine splitFrom_induction hop (P := fun s pieces => (∃ init, s = init ++ [d]) → pieces.getLast? ≠ some []) ?_ ?_
    · rintro s - ⟨init, rfl⟩
      simp
    · rintro left right - ih ⟨init, hinit⟩
      rcases List.eq_nil_or_concat right with rfl | ⟨right, c, rfl⟩
      · obtain ⟨before, c, rfl⟩ := (List.eq_nil_or_concat op).resolve_left hop
        rw [List.append_nil, List.concat_eq_append, ← List.append_assoc] at hinit
        obtain ⟨-, rfl⟩ := List.append_singleton_inj.mp hinit
        simp at h
      · rw [List.concat_eq_append, ← List.append_assoc] at hinit
        obtain ⟨-, rfl⟩ := List.append_singleton_inj.mp hinit
        obtain ⟨p, rest, hrest⟩ := List.exists_cons_of_ne_nil (splitFrom_ne_nil hop top (right.concat c))
        rw [hrest, List.getLast?_cons_cons, ← hrest]
        exact ih ⟨right, List.concat_eq_append⟩
  unfold dropEmptyEnd
  rw [if_neg (hlast _ ⟨init, rfl⟩)]

/-- A text that does not end like the operator is split wherever the operator is found. -/
theorem splitTop?_of_found (hop : op ≠ []) (h : d ∉ op) {init : List Char} (hs : s = init ++ [d])
    {found : List Char × List Char} (hfound : findTop? op top s = some found) :
    splitTop? op s = some (splitFrom op top 0 s) := by
  have hend : dropEmptyEnd (splitFrom op top 0 s) = splitFrom op top 0 s := by
    rw [hs]
    exact dropEmptyEnd_splitFrom hop h init
  have hmore : 1 < (splitFrom op top 0 s).length := by
    have := List.length_pos_iff.mpr (splitFrom_ne_nil hop top found.2)
    rw [splitFrom_eq hop, hfound, List.length_cons]
    omega
  unfold splitTop?
  rw [hend]
  exact if_pos hmore

/-- The pieces of a text without the blanks around them. -/
def operands (op s : List Char) : List (List Char) := (splitFrom op top 0 s).map Text.trim

theorem operands_of_none (hop : op ≠ []) (h : findTop? op top s = none) : operands op s = [Text.trim s] := by
  rw [operands, splitFrom_eq hop, h]
  rfl

theorem operands_of_some (hop : op ≠ []) {left right : List Char} (h : findTop? op top s = some (left, right)) :
    operands op s = Text.trim left :: operands op right := by
  rw [operands, splitFrom_eq hop, h]
  rfl

/-- A blank in front is passed over. -/
theorem findTop?_blank (hop : op ≠ []) (hd : Text.isBlank d = true) (h : d ∉ op) (t : List Char) :
    findTop? op top (d :: t) = (findTop? op top t).map fun (left, right) => (d :: left, right) := by
  obtain ⟨o, op, rfl⟩ := List.exists_cons_of_ne_nil hop
  have ho : o ∉ exposed top [d] := fun hmem => h (List.mem_singleton.mp hmem ▸ List.mem_cons_self)
  have hthrough : findTop? (o :: op) top ([d] ++ t) = _ := findTop?_through ho t
  rw [(Closed.plain (List.forall_mem_singleton.mpr (isPlain_of_blank hd))).after] at hthrough
  exact hthrough

theorem operands_blank (hop : op ≠ []) (hd : Text.isBlank d = true) (h : d ∉ op) (t : List Char) :
    operands op (d :: t) = operands op t := by
  have hfind := findTop?_blank hop hd h t
  cases ht : findTop? op top t with
  | none =>
    rw [ht] at hfind
    rw [operands_of_none hop hfind, operands_of_none hop ht, Text.trim_cons_of_blank hd]
  | some found =>
    rw [ht] at hfind
    rw [operands_of_some hop hfind, operands_of_some hop ht, Text.trim_cons_of_blank hd]

theorem operands_concat_blank (hop : op ≠ []) (hd : Text.isBlank d = true) (h : d ∉ op) (s : List Char) :
    operands op (s ++ [d]) = operands op s := by
  refine splitFrom_induction hop (P := fun s pieces => operands op (s ++ [d]) = pieces.map Text.trim) ?_ ?_ s
  · intro s hnone
    have hend : findTop? op (top.after s) [d] = none := by
      obtain ⟨o, op, rfl⟩ := List.exists_cons_of_ne_nil hop
      exact findTop?_none fun hmem => h (List.mem_singleton.mp (exposed_subset hmem) ▸ List.mem_cons_self)
    have hfind := findTop?_append (n := top) (s := s) h []
    rw [hnone, hend] at hfind
    rw [operands_of_none hop hfind, Text.trim_concat_of_blank hd]
    rfl
  · intro left right hfound ih
    have hfind := findTop?_append (n := top) (s := left ++ op ++ right) h []
    rw [hfound] at hfind
    rw [operands_of_some hop hfind, ih]
    rfl

/-- Blanks around a text do not count. -/
theorem operands_trim (hop : op ≠ []) (h : op.any Text.isBlank = false) (s : List Char) :
    operands op (Text.trim s) = operands op s := by
  have hout : ∀ c, Text.isBlank c = true → c ∉ op := fun c hc hmem => List.any_eq_false.mp h c hmem hc
  have front : ∀ before : List Char, (∀ c ∈ before, Text.isBlank c = true) → ∀ t,
      operands op (before ++ t) = operands op t := by
    intro before hbefore t
    induction before with
    | nil => rfl
    | cons c before ih =>
      obtain ⟨hc, hrest⟩ := List.forall_mem_cons.mp hbefore
      rw [List.cons_append, operands_blank hop hc (hout c hc), ih hrest]
  have back : ∀ after : List Char, (∀ c ∈ after, Text.isBlank c = true) → ∀ t,
      operands op (t ++ after) = operands op t := by
    intro after hafter t
    induction after generalizing t with
    | nil => rw [List.append_nil]
    | cons c after ih =>
      obtain ⟨hc, hrest⟩ := List.forall_mem_cons.mp hafter
      rw [List.append_cons, ih hrest, operands_concat_blank hop hc (hout c hc)]
  obtain ⟨before, after, hs, hbefore, hafter⟩ := Text.trim_spec s
  have heq := congrArg (operands op) hs
  rw [back after hafter, front before hbefore] at heq
  exact heq.symm

/-- The operands of two texts with the operator between them. -/
theorem operands_join (hop : op ≠ []) (h : ' ' ∉ op) (hclosed : Closed op) (hs : top.after s = top) (t : List Char) :
    operands op (s ++ ' ' :: (op ++ ' ' :: t)) = operands op s ++ operands op t := by
  refine splitFrom_induction hop (P := fun s pieces => top.after s = top →
    operands op (s ++ ' ' :: (op ++ ' ' :: t)) = pieces.map Text.trim ++ operands op t) ?_ ?_ s hs
  · intro s hnone hs
    have hfind : findTop? op top (s ++ ' ' :: (op ++ ' ' :: t)) = some (s ++ [' '], ' ' :: t) := by
      rw [findTop?_append h, hnone, hs]
      dsimp only
      rw [findTop?_blank hop rfl h, findTop?_here hop]
      rfl
    rw [operands_of_some hop hfind, operands_blank hop rfl h, Text.trim_concat_of_blank rfl]
    rfl
  · intro left right hfound ih hs
    obtain ⟨-, hleft, -⟩ := findTop?_spec hfound
    have hright : top.after right = top := by
      rw [after_append, after_append, hleft, hclosed.after] at hs
      exact hs
    have hfind := findTop?_append (n := top) (s := left ++ op ++ right) h (op ++ ' ' :: t)
    rw [hfound] at hfind
    rw [operands_of_some hop hfind, ih hright]
    rfl

end Operators

end Condition

end StepTree
