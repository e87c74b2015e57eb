import StepTree.Proofs.Condition.Term

/-! # Sides of operators

A term next to an operator does not hide it: neither the test of a path nor an operator is seen in the text of a
term, but for the operator `contains` in the placeholder of the path `contains`, where it stands between blanks. -/

namespace StepTree.Condition

open Nesting

/-! ### The test of a path -/

def existsWord : List Char := ['e', 'x', 'i', 's', 't', 's']

/-- What can follow a term: nothing, or a blank. -/
def Follows (rest : List Char) : Prop := rest = [] ∨ ∃ r, rest = ' ' :: r

theorem existsArgument?_of_head {c : Char} (h : c ≠ 'e') (rest : List Char) : existsArgument? (c :: rest) = none := by
  simp [existsArgument?, Text.after?, Ne.symm h]

/-- Letters that go on after `exists` make it no test. -/
theorem existsArgument?_of_word {c : Char} (h : isWordChar c = true) (rest : List Char) :
    existsArgument? (existsWord ++ c :: rest) = none := by
  obtain ⟨hblank, -, hsign, -⟩ := isWordChar_spec h
  have hopen : c ≠ '(' := by
    rintro rfl
    cases hsign
  have hstart : Text.trimStart (c :: rest) = c :: rest := by
    rw [Text.trimStart, List.dropWhile_cons, hblank]
    rfl
  unfold existsArgument?
  change Option.bind (Text.after? existsWord (existsWord ++ c :: rest)) _ = none
  rw [Text.after?_append, Option.bind_some, hstart]
  split
  · next heq => exact absurd (List.cons.inj heq).1 hopen
  · simp [hblank]

/-- A word other than `exists` is no test. -/
theorem existsArgument?_word {w rest : List Char} (h : IsWord w) (hne : w ≠ existsWord) (follows : Follows rest) :
    existsArgument? (w ++ rest) = none := by
  cases hafter : Text.after? existsWord (w ++ rest) with
  | none =>
    unfold existsArgument?
    exact congrArg (Option.bind · _) hafter
  | some x =>
    have hsplit := Text.eq_append_of_after? hafter
    rcases List.append_eq_append_iff.mp hsplit with ⟨more, hword, hrest⟩ | ⟨more, hword, -⟩
    · -- What follows the word would have to go on with letters.
      cases more with
      | nil => exact absurd (by simpa using hword.symm) hne
      | cons c more =>
        rcases follows with rfl | ⟨r, rfl⟩
        · cases hrest
        · obtain ⟨rfl, -⟩ := List.cons.inj hrest
          have hmem : ' ' ∈ existsWord := by simp [hword]
          exact absurd hmem (by decide)
    · cases more with
      | nil => exact absurd (by simpa using hword) hne
      | cons c more =>
        have hc : isWordChar c = true := h.chars c (by simp [hword])
        rw [hword, List.append_assoc, List.cons_append]
        exact existsArgument?_of_word hc _

/-- A term is no test. -/
theorem existsArgument?_term (t : Term) {rest : List Char} (follows : Follows rest) :
    existsArgument? (t.written ++ rest) = none := by
  cases t with
  | bare v =>
    have hne : v.path ≠ existsWord := fun heq => v.free (by rw [heq]; decide)
    exact existsArgument?_word v.word hne follows
  | placeholder v => exact existsArgument?_of_head (by decide) _
  | integer n =>
    obtain ⟨c, rest', hwritten, hc⟩ : ∃ c rest, (toString n).toList = c :: rest ∧ c ≠ 'e' := by
      cases n with
      | ofNat m =>
        obtain ⟨c, rest, hdigits, hc⟩ := Literal.exists_digit m
        exact ⟨c, rest, (toList_toString_ofNat m).trans hdigits, ne_of_kind hc rfl⟩
      | negSucc m => exact ⟨'-', _, toList_toString_negSucc m, by decide⟩
    rw [Term.written, hwritten]
    exact existsArgument?_of_head hc _
  | constant b => cases b <;> exact existsArgument?_of_head (by decide) _
  | null => exact existsArgument?_of_head (by decide) _
  | quoted q =>
    refine existsArgument?_of_head ?_ _
    rcases q.isQuote with h | h <;> rw [h] <;> decide

/-! ### The operator `contains` -/

def containsWord : List Char := ['c', 'o', 'n', 't', 'a', 'i', 'n', 's']

/-- The operator with the blanks around it. -/
def containsSign : List Char := ' ' :: (containsWord ++ [' '])

/-- A term in which the operator `contains` is not seen. -/
def Term.Distinct : Term → Prop
  | .placeholder v => v.path ≠ containsWord
  | _ => True

/-- Two words before a blank are the same if one text with the blank begins the other. -/
theorem word_unique {w p rest : List Char} (hw : ' ' ∉ w) (hp : ' ' ∉ p) (h : w ++ [' '] <+: p ++ ' ' :: rest) :
    w = p := by
  induction w generalizing p with
  | nil =>
    cases p with
    | nil => rfl
    | cons c p => exact absurd (List.cons_prefix_cons.mp h).1 fun heq => hp (heq ▸ List.mem_cons_self)
  | cons a w ih =>
    cases p with
    | nil => exact absurd (List.cons_prefix_cons.mp h).1 fun heq => hw (heq ▸ List.mem_cons_self)
    | cons c p =>
      obtain ⟨rfl, hprefix⟩ := List.cons_prefix_cons.mp h
      rw [ih (fun hm => hw (List.mem_cons_of_mem _ hm)) (fun hm => hp (List.mem_cons_of_mem _ hm)) hprefix]

/-- At the top level a plain character is the place of an operator or is passed over. -/
theorem findTop?_plain {c : Char} (h : isPlain c = true) (op t : List Char) :
    findTop? op top (c :: t) =
      if op.isPrefixOf (c :: t) then some ([], (c :: t).drop op.length)
      else (findTop? op top t).map fun (left, right) => (c :: left, right) := by
  have hnext : top.next c = top := (Closed.plain (List.forall_mem_singleton.mpr h)).after
  rw [findTop?, hnext]
  rfl

/-- The operator is looked for behind a text that stands in front of another. -/
def Passes (op s t : List Char) : Prop :=
  findTop? op top (s ++ t) = (findTop? op top t).map fun (left, right) => (s ++ left, right)

namespace Passes
variable {op s s' t : List Char}

theorem append (h : Passes op s (s' ++ t)) (h' : Passes op s' t) : Passes op (s ++ s') t := by
  unfold Passes at h h' ⊢
  rw [List.append_assoc, h, h']
  cases findTop? op top t with
  | none => rfl
  | some found => simp

theorem closed {o : Char} (hs : Closed s) (h : o ∉ exposed top s) : Passes (o :: op) s t := by
  rw [Passes, findTop?_through h, hs.after]

/-- A place where the operator does not stand is passed over. -/
theorem char {c : Char} (hplain : isPlain c = true) (h : ¬op <+: c :: t) : Passes op [c] t := by
  rw [Passes, List.singleton_append, findTop?_plain hplain, if_neg fun hhere => h (List.isPrefixOf_iff_prefix.mp hhere)]
  rfl

end Passes

theorem IsWord.unblanked {w : List Char} (h : IsWord w) : ' ' ∉ w := fun hmem => by cases h.chars _ hmem

theorem IsWord.passes {w : List Char} (h : IsWord w) (t : List Char) : Passes containsSign w t :=
  Passes.closed h.clear.closed fun hmem => h.unblanked (exposed_subset hmem)

/-- The operator `contains` is looked for behind a term. -/
theorem Term.passes {t : Term} (h : t.Distinct) (rest : List Char) : Passes containsSign t.written rest := by
  rcases t.written_cases with hword | ⟨v, rfl⟩ | ⟨q, rfl⟩
  · exact hword.passes rest
  · -- The operator stands neither before the path, which is another word, nor behind it.
    have hbefore : ¬containsSign <+: ' ' :: (v.path ++ ([' ', '\x7d', '\x7d'] ++ rest)) := fun hprefix =>
      h (word_unique (by decide) v.word.unblanked (List.cons_prefix_cons.mp hprefix).2).symm
    have hbehind : ¬containsSign <+: ' ' :: (['\x7d', '\x7d'] ++ rest) := fun hprefix =>
      absurd (List.cons_prefix_cons.mp (List.cons_prefix_cons.mp hprefix).2).1 (by decide)
    have braces : ∀ c, isPlain c = true → ' ' ∉ [c, c] → ∀ t, Passes containsSign [c, c] t := fun c hplain hc t =>
      Passes.closed (Closed.plain (by simp [hplain])) fun hmem => hc (exposed_subset hmem)
    have hend : Passes containsSign [' ', '\x7d', '\x7d'] rest :=
      (Passes.char rfl hbehind).append (braces '\x7d' rfl (by decide) rest)
    have hpath : Passes containsSign (v.path ++ [' ', '\x7d', '\x7d']) rest := (v.word.passes _).append hend
    have hblank : Passes containsSign ([' '] ++ (v.path ++ [' ', '\x7d', '\x7d'])) rest :=
      (Passes.char rfl (by simpa using hbefore)).append hpath
    have htext : (Term.placeholder v).written = ['\x7b', '\x7b'] ++ ([' '] ++ (v.path ++ [' ', '\x7d', '\x7d'])) := by
      simp [Term.written_placeholder]
    rw [htext]
    exact (braces '\x7b' rfl (by decide) _).append hblank
  · refine Passes.closed (Term.quoted_clear q).closed ?_
    have hexposed : exposed top (Term.quoted q).written = [q.quote] := exposed_quoted q.isQuote q.unquoted
    rw [hexposed]
    rcases q.isQuote with h | h <;> rw [h] <;> decide

/-! ### Comparisons -/

section Comparisons
variable {o : Char} (ho : isSign o = true)
include ho

theorem Term.passes_sign (t : Term) (op rest : List Char) : Passes (o :: op) t.written rest :=
  Passes.closed t.clear.closed fun hmem => by cases ho.symm.trans (t.clear.exposed o hmem)

theorem Term.findTop?_sign (t : Term) (op : List Char) : findTop? (o :: op) top t.written = none :=
  findTop?_none fun hmem => by cases ho.symm.trans (t.clear.exposed o hmem)

end Comparisons

/-- The first comparison in the list whose operator occurs is the one that is written. -/
theorem findComparison?_spaced {sign : Sign} {left : Term} (h : sign = .contains → left.Distinct) (right : Term) :
    findComparison? (spaced left.written sign.written right.written) =
      some (sign.comparison, left.written, right.written) := by
  have hleft : ∀ o op rest, isSign o = true → findTop? (o :: op) top (left.written ++ rest) =
      (findTop? (o :: op) top rest).map fun (l, r) => (left.written ++ l, r) :=
    fun o op rest ho => left.passes_sign ho op rest
  have hright : ∀ o op, isSign o = true → findTop? (o :: op) top right.written = none :=
    fun o op ho => right.findTop?_sign ho op
  have htrim : Text.trim (left.written ++ [' ']) = left.written := by
    rw [Text.trim_concat_of_blank rfl, left.clear.tight.trim]
  have htrim' : Text.trim (' ' :: right.written) = right.written := by
    rw [Text.trim_cons_of_blank rfl, right.clear.tight.trim]
  cases sign with
  | contains =>
    have hcontains : ∀ rest, findTop? containsSign top (left.written ++ rest) = _ := Term.passes (h rfl)
    simp only [containsSign, containsWord, List.cons_append, List.nil_append] at hcontains
    simp [findComparison?, operators, spaced, hleft, hright, hcontains, Sign.written, Sign.comparison,
      findTop?_plain, isPlain, isSign, left.clear.tight.trim, right.clear.tight.trim]
  | _ =>
    simp [findComparison?, operators, spaced, hleft, hright, Sign.written, Sign.comparison,
      findTop?_plain, isPlain, isSign, htrim, htrim']

/-- A term alone is no comparison. -/
theorem findComparison?_term {t : Term} (h : t.Distinct) : findComparison? t.written = none := by
  have hcontains : findTop? containsSign top (t.written ++ []) = none := t.passes h []
  rw [List.append_nil] at hcontains
  simp only [containsSign, containsWord, List.cons_append, List.nil_append] at hcontains
  simp [findComparison?, operators, hcontains, t.findTop?_sign, isSign]

end StepTree.Condition
