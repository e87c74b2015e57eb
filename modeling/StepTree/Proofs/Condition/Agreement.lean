import StepTree.Proofs.Condition.Sides

/-! # Written expressions mean what their trees mean

The value of an expression that was written is the truth of its tree. One term is not read back: the placeholder
of the path `contains` looks like the operator when it stands alone or to the left of the operator. -/

namespace StepTree.Condition

open Template (Lookup)
open Nesting

/-! ### Shapes of written expressions -/

/-- What is known of a text in which an expression is written at a level. -/
structure Sound (level : Level) (s : List Char) : Prop where
  closed : Closed s
  head : ∃ c rest, s = c :: rest ∧ Text.isBlank c = false ∧ c ≠ '='
  last : ∃ init c, s = init ++ [c] ∧ Text.isBlank c = false ∧ isSign c = false
  unequal : ¬['!', '='] <+: s
  withoutOr : level ≠ .or → '|' ∉ exposed top s
  withoutAnd : level ≠ .or → level ≠ .and → '&' ∉ exposed top s
  braces : (∃ c rest, s = c :: rest ∧ c ≠ '\x7b') ∨ ∃ v rest, s = (Term.placeholder v).written ++ rest
  named : s ≠ always

namespace Sound
variable {level : Level} {s t op : List Char}

theorem tight (h : Sound level s) : Text.Tight s where
  head := by
    obtain ⟨c, rest, hs, hc, -⟩ := h.head
    exact ⟨c, rest, hs, hc⟩
  last := by
    obtain ⟨init, c, hs, hc, -⟩ := h.last
    exact ⟨init, c, hs, hc⟩

/-- No more is known where less is asked for. -/
theorem loosen {level' : Level} (h : Sound level s) (hor : level = .or → level' = .or)
    (hand : level = .and → level' = .or ∨ level' = .and) : Sound level' s where
  closed := h.closed
  head := h.head
  last := h.last
  unequal := h.unequal
  withoutOr hlevel := h.withoutOr fun heq => hlevel (hor heq)
  withoutAnd hlevel hlevel' := h.withoutAnd (fun heq => hlevel (hor heq)) fun heq => (hand heq).elim hlevel hlevel'
  braces := h.braces
  named := h.named

theorem term (t : Term) : Sound level t.written where
  closed := t.clear.closed
  head := by
    obtain ⟨c, rest, hs, hblank, hsign⟩ := t.clear.head
    exact ⟨c, rest, hs, hblank, (ne_of_kind (p := isSign) (d := c) rfl hsign).symm⟩
  last := t.clear.last
  unequal hprefix := by
    obtain ⟨c, rest, hs, -, hsign⟩ := t.clear.head
    rw [hs] at hprefix
    obtain ⟨rfl, -⟩ := List.cons_prefix_cons.mp hprefix
    cases hsign
  withoutOr _ hmem := by cases t.clear.exposed _ hmem
  withoutAnd _ _ hmem := by cases t.clear.exposed _ hmem
  braces := by
    rcases t.written_cases with hword | ⟨v, rfl⟩ | ⟨q, rfl⟩
    · obtain ⟨c, rest, hs⟩ := List.exists_cons_of_ne_nil hword.ne_nil
      exact Or.inl ⟨c, rest, hs, ne_of_kind (hword.chars c (by simp [hs])) rfl⟩
    · exact Or.inr ⟨v, [], (List.append_nil _).symm⟩
    · refine Or.inl ⟨q.quote, _, rfl, ?_⟩
      rcases q.isQuote with h | h <;> rw [h] <;> decide
  named := by
    cases t with
    | bare v => exact fun heq => v.free (by rw [show v.path = always from heq]; decide)
    | placeholder v => exact fun heq => absurd (List.cons.inj heq).1 (by decide)
    | integer n =>
      intro heq
      have hbegins := integer_beginsLikeLiteral n
      rw [show (toString n).toList = always from heq] at hbegins
      cases hbegins
    | constant b => cases b <;> decide
    | null => decide
    | quoted q =>
      intro heq
      have hquote : q.quote = 'd' := (List.cons.inj heq).1
      rcases q.isQuote with h | h <;> rw [h] at hquote <;> cases hquote

theorem between (h : Closed op) : Closed (' ' :: (op ++ [' '])) :=
  have hblank : Closed [' '] := by decide
  hblank.append (h.append hblank)

/-- What lies open in two texts with an operator between them. -/
theorem mem_exposed_spaced (hs : Closed s) (hop : Closed op) {c : Char}
    (h : c ∈ exposed top (spaced s op t)) : c ∈ exposed top s ∨ c = ' ' ∨ c ∈ op ∨ c ∈ exposed top t := by
  have hmiddle : Closed (' ' :: (op ++ [' '])) := between hop
  have htext : spaced s op t = s ++ (' ' :: (op ++ [' ']) ++ t) := by simp [spaced]
  rw [htext, exposed_append, exposed_append, hs.after, hmiddle.after] at h
  rcases List.mem_append.mp h with h | h
  · exact Or.inl h
  · rcases List.mem_append.mp h with h | h
    · have hmem := exposed_subset h
      simp only [List.mem_cons, List.mem_append, List.not_mem_nil, or_false] at hmem
      rcases hmem with rfl | hmem | rfl
      · exact Or.inr (Or.inl rfl)
      · exact Or.inr (Or.inr (Or.inl hmem))
      · exact Or.inr (Or.inl rfl)
    · exact Or.inr (Or.inr (Or.inr h))

theorem spaced (hs : Sound level s) (ht : Sound level t) (hop : Closed op)
    (hbars : level ≠ .or → '|' ∉ op) (hamps : level ≠ .or → level ≠ .and → '&' ∉ op) :
    Sound level (spaced s op t) where
  closed := by
    have hmiddle : Closed (' ' :: (op ++ [' '])) := between hop
    have htext : Condition.spaced s op t = s ++ (' ' :: (op ++ [' ']) ++ t) := by simp [Condition.spaced]
    rw [htext]
    exact hs.closed.append (hmiddle.append ht.closed)
  head := by
    obtain ⟨c, rest, rfl, hc⟩ := hs.head
    exact ⟨c, _, rfl, hc⟩
  last := by
    obtain ⟨init, c, rfl, hc⟩ := ht.last
    exact ⟨s ++ ' ' :: (op ++ ' ' :: init), c, by simp [Condition.spaced], hc⟩
  unequal hprefix := hs.unequal ((prefix_append_iff (by decide) _).mp hprefix)
  withoutOr hlevel hmem := by
    rcases mem_exposed_spaced hs.closed hop hmem with hmem | hmem | hmem | hmem
    · exact hs.withoutOr hlevel hmem
    · cases hmem
    · exact hbars hlevel hmem
    · exact ht.withoutOr hlevel hmem
  withoutAnd hlevel hlevel' hmem := by
    rcases mem_exposed_spaced hs.closed hop hmem with hmem | hmem | hmem | hmem
    · exact hs.withoutAnd hlevel hlevel' hmem
    · cases hmem
    · exact hamps hlevel hlevel' hmem
    · exact ht.withoutAnd hlevel hlevel' hmem
  braces := by
    rcases hs.braces with ⟨c, rest, rfl, hc⟩ | ⟨v, rest, rfl⟩
    · exact Or.inl ⟨c, _, rfl, hc⟩
    · exact Or.inr ⟨v, _, List.append_assoc _ _ _⟩
  named heq := by
    have hblank : ' ' ∈ always := by rw [← heq]; simp [Condition.spaced]
    exact absurd hblank (by decide)

theorem not (h : Sound .not s) : Sound .not ('!' :: s) where
  closed := Closed.append (s := ['!']) (by decide) h.closed
  head := ⟨'!', s, rfl, rfl, by decide⟩
  last := by
    obtain ⟨init, c, rfl, hc⟩ := h.last
    exact ⟨'!' :: init, c, rfl, hc⟩
  unequal hprefix := by
    obtain ⟨c, rest, rfl, -, hc⟩ := h.head
    exact hc (List.cons_prefix_cons.mp (List.cons_prefix_cons.mp hprefix).2).1.symm
  withoutOr hlevel hmem := h.withoutOr hlevel ((List.mem_cons.mp hmem).resolve_left (by decide))
  withoutAnd hlevel hlevel' hmem := h.withoutAnd hlevel hlevel' ((List.mem_cons.mp hmem).resolve_left (by decide))
  braces := Or.inl ⟨'!', s, rfl, by decide⟩
  named heq := absurd (List.cons.inj heq).1 (by decide)

theorem enclosed (h : Closed s) : Sound level (enclosed s) where
  closed := h.parentheses
  head := ⟨'(', _, rfl, rfl, by decide⟩
  last := ⟨_, ')', rfl, rfl, rfl⟩
  unequal hprefix := absurd (List.cons_prefix_cons.mp hprefix).1 (by decide)
  withoutOr _ hmem := absurd (exposed_parentheses h ▸ hmem) (by decide)
  withoutAnd _ _ hmem := absurd (exposed_parentheses h ▸ hmem) (by decide)
  braces := Or.inl ⟨'(', _, rfl, by decide⟩
  named heq := absurd (List.cons.inj heq).1 (by decide)

/-- Nothing lies open in the argument of a test. -/
theorem exposed_test (h : Closed s) : exposed top (existsWord ++ Condition.enclosed s) = existsWord ++ ['('] := by
  rw [exposed_append, Closed.after (by decide), Condition.enclosed, exposed_parentheses h]
  rfl

theorem test (h : Closed s) : Sound level (existsWord ++ Condition.enclosed s) where
  closed := Closed.append (by decide) h.parentheses
  head := ⟨'e', _, rfl, rfl, by decide⟩
  last := ⟨existsWord ++ '(' :: s, ')', by simp [Condition.enclosed], rfl, rfl⟩
  unequal hprefix := absurd (List.cons_prefix_cons.mp hprefix).1 (by decide)
  withoutOr _ := by
    rw [exposed_test h]
    decide
  withoutAnd _ _ := by
    rw [exposed_test h]
    decide
  braces := Or.inl ⟨'e', _, rfl, by decide⟩
  named heq := absurd (List.cons.inj heq).1 (by decide)

end Sound

theorem Sign.written_closed (sign : Sign) :
    Closed sign.written ∧ '|' ∉ sign.written ∧ '&' ∉ sign.written := by
  cases sign <;> decide

theorem Written.sound {level : Level} {e : Expression} {s : List Char} (h : Written level e s) : Sound level s := by
  induction h with
  | or left right ihl ihr =>
    exact ihl.spaced ihr (by decide) (fun h => absurd rfl h) fun h => absurd rfl h
  | and left right ihl ihr => exact ihl.spaced ihr (by decide) (fun _ => by decide) fun _ h => absurd rfl h
  | not inner ih => exact ih.not
  | compare sign left right =>
    obtain ⟨hclosed, hbars, hamps⟩ := sign.written_closed
    exact (Sound.term left).spaced (Sound.term right) hclosed (fun _ => hbars) fun _ _ => hamps
  | defined v => exact Sound.test v.word.clear.closed
  | term t => exact Sound.term t
  | enclosed inner ih => exact Sound.enclosed ih.closed
  | ofAnd h ih => exact ih.loosen (fun _ => rfl) fun _ => Or.inl rfl
  | ofNot h ih => exact ih.loosen (fun h => by cases h) fun h => by cases h
  | ofAtom h ih => exact ih.loosen (fun h => by cases h) fun h => by cases h

/-! ### Values -/

section Values
variable {lookup : Lookup} {s t : List Char}

/-- A sound text is the disjunction of its operands. -/
theorem Sound.disjunction {level : Level} (h : Sound level s) :
    value lookup s = connect true (value lookup) (operands bars s) := by
  obtain ⟨init, c, hs, -, hsign⟩ := h.last
  exact value_disjunction h.tight hs (not_mem_connectives hsign).1

/-- A sound text without `||` is the conjunction of its operands. -/
theorem Sound.conjunction (h : Sound .and s) :
    value lookup s = connect false (value lookup) (operands amps s) := by
  obtain ⟨init, c, hs, -, hsign⟩ := h.last
  exact value_conjunction h.tight (findTop?_none (h.withoutOr (by decide))) hs (not_mem_connectives hsign).2

theorem value_or (hs : Sound .or s) (ht : Sound .or t) :
    value lookup (spaced s bars t) = (do if ← value lookup s then .ok true else value lookup t) := by
  have hwhole : Sound .or (spaced s bars t) :=
    hs.spaced ht (by decide) (fun h => absurd rfl h) fun h => absurd rfl h
  rw [hwhole.disjunction, spaced, operands_join (by decide) (by decide) (by decide) hs.closed.after,
    connect_append, ← hs.disjunction, ← ht.disjunction]

theorem value_and (hs : Sound .and s) (ht : Sound .and t) :
    value lookup (spaced s amps t) = (do if ← value lookup s then value lookup t else .ok false) := by
  have hwhole : Sound .and (spaced s amps t) :=
    hs.spaced ht (by decide) (fun _ => by decide) fun _ h => absurd rfl h
  rw [hwhole.conjunction, spaced, operands_join (by decide) (by decide) (by decide) hs.closed.after,
    connect_append, ← hs.conjunction, ← ht.conjunction]
  rcases value lookup s with e | _ | _ <;> rfl

theorem Sound.form_eq (h : Sound .not s) :
    form s =
      if 0 < (negations s).1 then .negation (negations s).1 (negations s).2
      else match parenthesized? (negations s).2 with
        | some grouped => .group grouped
        | none => .atom (negations s).2 :=
  have hbars : findTop? bars top s = none := findTop?_none (h.withoutOr (by decide))
  have hamps : findTop? amps top s = none := findTop?_none (h.withoutAnd (by decide) (by decide))
  form_simple h.tight ((splitTop?_eq_none (by decide)).mpr (by simp [hbars]))
    ((splitTop?_eq_none (by decide)).mpr (by simp [hamps]))

/-- Something stands behind the negations of a sound text. -/
theorem Sound.negations_inner {level : Level} (h : Sound level s) : Text.trim (negations s).2 ≠ [] := by
  obtain ⟨before, hs, hbefore, -⟩ := negations_spec s
  obtain ⟨init, c, hlast, hblank, hsign⟩ := h.last
  intro hnil
  have hinner := Text.trim_eq_nil_iff.mp hnil
  have hmem : c ∈ before ++ (negations s).2 := by rw [← hs, hlast]; simp
  have hother : c ∈ before → False := fun hc => by
    rcases hbefore c hc with h | rfl
    · cases h.symm.trans hblank
    · cases hsign
  rcases List.mem_append.mp hmem with hc | hc
  · exact hother hc
  · cases (hinner c hc).symm.trans hblank

/-- A text that begins with no blank and no `!` has no negations. -/
theorem negations_none {c : Char} (hblank : Text.isBlank c = false) (hbang : c ≠ '!') (rest : List Char) :
    negations (c :: rest) = (0, c :: rest) := by
  simp [negations, hblank, hbang]

theorem negated_succ (count : Nat) (b : Bool) : negated (count + 1) b = !negated count b := by
  unfold negated
  rcases Nat.mod_two_eq_zero_or_one count with h | h
  · rw [if_pos (by omega), if_neg (by omega)]
  · rw [if_neg (by omega), if_pos (by omega), Bool.not_not]

theorem value_not (h : Sound .not s) : value lookup ('!' :: s) = (value lookup s).map (!·) := by
  obtain ⟨c, rest, hs, hblank, hequal⟩ := h.head
  have hnegations : negations ('!' :: s) = ((negations s).1 + 1, (negations s).2) := by
    have hhead : s.head? ≠ some '=' := by simpa [hs] using hequal
    rw [negations, if_neg (by decide), if_pos ⟨rfl, hhead⟩]
  have hinner : (Text.trim (negations s).2).isEmpty = false := List.isEmpty_eq_false_iff.mpr h.negations_inner
  have hwhole : value lookup ('!' :: s) = (value lookup (negations s).2).map (negated ((negations s).1 + 1)) := by
    rw [value_eq, evalBy, h.not.form_eq, hnegations, if_pos (Nat.succ_pos _)]
    dsimp only
    rw [hinner]
    rfl
  rw [hwhole]
  by_cases hbang : c = '!'
  · -- The value of the text itself comes from what stands behind its negations.
    have hpos : 0 < (negations s).1 := by
      have hhead : rest.head? ≠ some '=' := by
        intro heq
        obtain ⟨rest', hrest⟩ := List.head?_eq_some_iff.mp heq
        exact h.unequal ⟨rest', by rw [hs, hbang, hrest]; rfl⟩
      rw [hs, hbang, negations, if_neg (by decide), if_pos ⟨rfl, hhead⟩]
      exact Nat.succ_pos _
    rw [value_eq lookup s, evalBy, h.form_eq, if_pos hpos]
    dsimp only
    rw [hinner]
    cases value lookup (negations s).2 with
    | error e => rfl
    | ok b => exact congrArg Except.ok (negated_succ _ b)
  · rw [hs, negations_none hblank hbang]
    rfl

/-- The value of a text without connectives and negations. -/
theorem value_atom {c : Char} {rest : List Char} (h : Sound .not s) (hs : s = c :: rest) (hbang : c ≠ '!') :
    value lookup s =
      match parenthesized? s with
      | some grouped => value lookup grouped
      | none => evalAtom lookup s := by
  obtain ⟨d, rest', hs', hblank, -⟩ := h.head
  obtain ⟨rfl, -⟩ := List.cons.inj (hs.symm.trans hs')
  have hnegations : negations s = (0, s) := by rw [hs, negations_none hblank hbang]
  rw [value_eq, evalBy, h.form_eq, hnegations]
  dsimp only
  rw [if_neg (Nat.lt_irrefl 0)]
  cases parenthesized? s <;> rfl

/-- The value of a text that does not begin with a parenthesis either. -/
theorem value_unenclosed {c : Char} {rest : List Char} (h : Sound .not s) (hs : s = c :: rest) (hbang : c ≠ '!')
    (hopen : c ≠ '(') : value lookup s = evalAtom lookup s := by
  rw [value_atom h hs hbang]
  split
  · next inner hinner =>
    rw [(parenthesized?_eq_some.mp hinner).1] at hs
    exact absurd (List.cons.inj hs).1.symm hopen
  · rfl

theorem value_enclosed (h : Closed s) : value lookup (enclosed s) = value lookup s := by
  have hgroup : parenthesized? (enclosed s) = some s := parenthesized?_eq_some.mpr ⟨rfl, h.balanced⟩
  rw [value_atom (Sound.enclosed h) rfl (by decide), hgroup]

/-- The path that a test of an argument looks for: the argument, or the path of the placeholder that it is. -/
def tested (argument : List Char) : List Char :=
  Text.trim ((Template.single? (Text.trim argument)).getD (Text.trim argument))

/-- A test of any argument has a value: whether the argument is a path that has one. -/
theorem value_test {argument : List Char} (h : Closed argument) :
    value lookup (existsWord ++ enclosed argument) =
      .ok (!(tested argument).isEmpty && (lookup (tested argument)).isSome) := by
  have hcall : Text.before? [')'] (Text.trimEnd (argument ++ [')'])) = some argument := by
    rw [Text.trimEnd_concat]
    exact Text.before?_eq_some.mpr rfl
  have hargument : existsArgument? (existsWord ++ enclosed argument) =
      (Text.before? [')'] (Text.trimEnd (argument ++ [')']))).map Text.trim := rfl
  rw [value_unenclosed (Sound.test h) rfl (by decide) (by decide), evalAtom, hargument, hcall]
  rfl

theorem value_defined (v : Variable) :
    value lookup (existsWord ++ enclosed v.path) = .ok (lookup v.path).isSome := by
  have htested : tested v.path = v.path := by
    rw [tested, v.word.clear.tight.trim, v.word.single?, Option.getD_none, v.word.clear.tight.trim]
  rw [value_test v.word.clear.closed, htested, List.isEmpty_eq_false_iff.mpr v.word.ne_nil]
  rfl

/-- A term before other text is neither negated nor in parentheses. -/
theorem value_of_term {t : Term} {rest : List Char} (h : Sound .not (t.written ++ rest)) :
    value lookup (t.written ++ rest) = evalAtom lookup (t.written ++ rest) := by
  obtain ⟨c, rest', hs, -, hsign⟩ := t.clear.head
  have hne : ∀ d, isSign d = true → c ≠ d := fun d hd => (ne_of_kind hd hsign).symm
  exact value_unenclosed h (by rw [hs]; rfl) (hne '!' rfl) (hne '(' rfl)

theorem value_term {t : Term} (h : t.Distinct) :
    value lookup t.written = (Expression.term t).truth lookup := by
  have hvalue : value lookup (t.written ++ []) = evalAtom lookup (t.written ++ []) :=
    value_of_term (by rw [List.append_nil]; exact Sound.term t)
  have hexists := existsArgument?_term t (Or.inl rfl)
  rw [List.append_nil] at hvalue hexists
  rw [hvalue, evalAtom, hexists, findComparison?_term h]
  dsimp only
  rw [Term.operand_written, Expression.truth]
  rcases t.operand lookup with e | v | path <;> rfl

theorem compareOperands_eq (comparison : Comparison) (a b : Operand) :
    compareOperands comparison a b = comparisonTruth comparison a b := by
  rcases a with v | path <;> rcases b with w | path'
  · rfl
  · cases comparison <;> cases v <;> rfl
  · cases comparison <;> cases w <;> rfl
  · cases comparison <;> rfl

theorem value_compare {sign : Sign} {left : Term} (h : sign = .contains → left.Distinct) (right : Term) :
    value lookup (spaced left.written sign.written right.written) =
      (Expression.compare sign left right).truth lookup := by
  have hsound : Sound .not (spaced left.written sign.written right.written) :=
    (Written.ofAtom (.compare sign left right)).sound
  have hexists : existsArgument? (spaced left.written sign.written right.written) = none :=
    existsArgument?_term left (Or.inr ⟨_, rfl⟩)
  have hleft : left.written.isEmpty = false := List.isEmpty_eq_false_iff.mpr left.clear.tight.ne_nil
  have hright : right.written.isEmpty = false := List.isEmpty_eq_false_iff.mpr right.clear.tight.ne_nil
  have hvalue : value lookup (spaced left.written sign.written right.written) = _ := value_of_term hsound
  rw [hvalue, ← spaced, evalAtom, hexists, findComparison?_spaced h]
  dsimp only
  rw [hleft, hright, Bool.or_false, if_neg Bool.false_ne_true, left.operand_written, right.operand_written,
    Expression.truth]
  simp only [compareOperands_eq]

end Values

/-! ### Agreement -/

/-- No operator is seen in a term that stands alone or on the left side of the operator `contains`. -/
def Expression.Readable : Expression → Prop
  | .or a b => a.Readable ∧ b.Readable
  | .and a b => a.Readable ∧ b.Readable
  | .not a => a.Readable
  | .compare sign left _ => sign = .contains → left.Distinct
  | .defined _ => True
  | .term t => t.Distinct

/-- The value of an expression that is written at any level is its truth. -/
theorem value_written {lookup : Lookup} {level : Level} {e : Expression} {s : List Char} (h : Written level e s)
    (readable : e.Readable) : value lookup s = e.truth lookup := by
  induction h with
  | or left right ihl ihr => rw [value_or left.sound right.sound, ihl readable.1, ihr readable.2, Expression.truth]
  | and left right ihl ihr => rw [value_and left.sound right.sound, ihl readable.1, ihr readable.2, Expression.truth]
  | not inner ih => rw [value_not inner.sound, ih readable, Expression.truth]
  | compare sign left right => exact value_compare readable right
  | defined v => exact value_defined v
  | term t => exact value_term readable
  | enclosed inner ih => rw [value_enclosed inner.sound.closed, ih readable]
  | ofAnd h ih => exact ih readable
  | ofNot h ih => exact ih readable
  | ofAtom h ih => exact ih readable

/-- The braces of a placeholder that is a whole expression stay, since they enclose a path. -/
theorem Sound.bare {level : Level} {s : List Char} (h : Sound level s) : bare s = s := by
  unfold Condition.bare
  rw [h.tight.trim]
  dsimp only
  rcases h.braces with ⟨c, rest, hs, hc⟩ | ⟨v, rest, hs⟩
  · rw [single?_of_head h.tight hs hc]
  · cases rest with
    | nil =>
      rw [List.append_nil] at hs
      rw [hs, Term.single?_placeholder]
      exact if_pos v.isPath
    | cons c rest =>
      have hsingle : Template.single? s = none := by
        rw [Template.single?, h.tight.trim, hs, Term.placeholder?_placeholder]
      rw [hsingle]

/-- Nothing happens to a sound text before it is evaluated. -/
theorem Sound.evalBool {lookup : Lookup} {level : Level} {s : List Char} (h : Sound level s) :
    evalBool lookup (String.ofList s) = value lookup s := by
  rw [evalBool_eq, String.toList_ofList, h.bare, List.isEmpty_eq_false_iff.mpr h.tight.ne_nil,
    if_neg Bool.false_ne_true, if_neg h.named]

/-- The condition that an expression is written as has the truth of the expression. -/
theorem evalBool_written {lookup : Lookup} {e : Expression} (readable : e.Readable) :
    (∀ s, Written .or e s → evalBool lookup (String.ofList s) = e.truth lookup) ∧
      Written .or e (e.brief .or) ∧ Written .or e e.full := by
  refine ⟨fun s h => ?_, Written.brief e .or, Written.full e⟩
  rw [h.sound.evalBool, value_written h readable]

/-- Where nothing is defined, a condition with all three connectives, a group and two kinds of terms holds. -/
theorem negated_group_holds :
    evalBool (fun _ => none) "!(exists(b) || a != null) && \x7b\x7b a \x7d\x7d == null" = .ok true := by
  have readable : (Expression.and
      (.not (.or (.defined ⟨['b'], rfl, by decide⟩) (.compare .notEqual (.bare ⟨['a'], rfl, by decide⟩) .null)))
      (.compare .equal (.placeholder ⟨['a'], rfl, by decide⟩) .null)).Readable :=
    ⟨⟨trivial, nofun⟩, nofun⟩
  exact ((evalBool_written readable).1 _ (Written.brief _ .or)).trans rfl

/-- The placeholder of the path `contains` is refused where it stands alone, although its path has a value. -/
theorem contains_not_read :
    Written .or (.term (.placeholder ⟨containsWord, rfl, by decide⟩)) "\x7b\x7b contains \x7d\x7d".toList ∧
      (Expression.term (.placeholder ⟨containsWord, rfl, by decide⟩)).truth (fun _ => some (.num (.int 1))) = .ok true ∧
      evalBool (fun _ => some (.num (.int 1))) "\x7b\x7b contains \x7d\x7d" =
        .error (.invalid "\x7d\x7d" .unsupportedOperand) :=
  ⟨(Written.term _).loosen .or, rfl, rfl⟩

end StepTree.Condition
