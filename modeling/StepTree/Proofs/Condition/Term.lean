import StepTree.Proofs.Condition.Expression

/-! # Terms read back

A term that was written is found again: no operator of the grammar lies open in its text, and the operand that its
text stands for is the one that the term means. -/

namespace StepTree

/-! ### Integers -/

namespace Literal

theorem step_digitChar {d : Nat} (h : d < 10) (n : Nat) : digits?.step 10 n d.digitChar = some (n * 10 + d) := by
  have hdigit : ∀ d : Fin 10, '0' ≤ Nat.digitChar d ∧ Nat.digitChar d ≤ '9' ∧ (Nat.digitChar d).toNat - 48 = d := by
    decide
  obtain ⟨hlow, hhigh, hvalue⟩ := hdigit ⟨d, h⟩
  simp only at hlow hhigh hvalue
  simp [digits?.step, hlow, hhigh, hvalue, h]

/-- Only digits are digits. -/
theorem step_eq_none {c : Char} (h : isDigit c = false) (n : Nat) : digits?.step 10 n c = none := by
  have hdigit : ¬('0' ≤ c ∧ c ≤ '9') := by simpa [isDigit] using h
  have hsmall : 'a' ≤ c → 97 ≤ c.toNat := fun hle => by simpa [Char.le_def, UInt32.le_iff_toNat_le] using hle
  have hcapital : 'A' ≤ c → 65 ≤ c.toNat := fun hle => by simpa [Char.le_def, UInt32.le_iff_toNat_le] using hle
  unfold digits?.step
  rw [if_neg hdigit]
  refine if_neg ?_
  split
  · next hletter =>
    have := hsmall hletter.1
    omega
  · split
    · next hletter =>
      have := hcapital hletter.1
      omega
    · exact Nat.lt_irrefl 10

theorem foldlM_toDigits (n : Nat) : (Nat.toDigits 10 n).foldlM (digits?.step 10) 0 = some n := by
  induction n using Nat.strongRecOn with
  | ind n ih =>
    rw [Nat.toDigits_eq_if (by decide)]
    split
    · next h => simpa using step_digitChar h 0
    · next h =>
      have hstep := step_digitChar (Nat.mod_lt n (by decide)) (n / 10)
      rw [List.foldlM_append, ih (n / 10) (by omega)]
      simp [hstep]
      omega

theorem digits?_toDigits (n : Nat) : digits? 10 (Nat.toDigits 10 n) = some n := by
  rw [digits?, List.isEmpty_eq_false_iff.mpr Nat.toDigits_ne_nil]
  exact foldlM_toDigits n

theorem isDigit_of_mem_toDigits {n : Nat} {c : Char} (h : c ∈ Nat.toDigits 10 n) : isDigit c = true := by
  have hdigit := Nat.isDigit_of_mem_toDigits (by decide) (by decide) h
  simpa [isDigit, Char.isDigit, Char.le_def] using hdigit

theorem exists_digit (n : Nat) : ∃ c rest, Nat.toDigits 10 n = c :: rest ∧ isDigit c = true := by
  obtain ⟨c, rest, h⟩ := List.exists_cons_of_ne_nil (Nat.toDigits_ne_nil (n := n) (b := 10))
  exact ⟨c, rest, h, isDigit_of_mem_toDigits (by rw [h]; exact List.mem_cons_self)⟩

/-- Digits alone are a decimal without a fraction and an exponent. -/
theorem magnitude?_toDigits (n : Nat) : magnitude? (Nat.toDigits 10 n) = some (n, 0) := by
  have hall : ∀ c ∈ Nat.toDigits 10 n, isDigit c = true := fun c hc => isDigit_of_mem_toDigits hc
  have htake : (Nat.toDigits 10 n).takeWhile isDigit = Nat.toDigits 10 n := by
    rw [← List.append_nil (Nat.toDigits 10 n), List.takeWhile_append_of_pos hall, List.takeWhile_nil]
  have hdrop : (Nat.toDigits 10 n).dropWhile isDigit = [] := by
    rw [← List.append_nil (Nat.toDigits 10 n), List.dropWhile_append_of_pos hall, List.dropWhile_nil]
  simp [magnitude?, htake, hdrop, digits?_toDigits]

theorem signed?_unsigned {c : Char} (hminus : c ≠ '-') (hplus : c ≠ '+') (base bound : Nat) (rest : List Char) :
    signed? base bound (c :: rest) = ((digits? base (c :: rest)).filter (· < bound)).map Int.ofNat := by
  rw [signed?]
  · simp [hminus]
  · simp [hplus]

theorem decimal?_unsigned {c : Char} (hminus : c ≠ '-') (hplus : c ≠ '+') (rest : List Char) :
    decimal? (c :: rest) =
      (magnitude? (c :: rest)).bind fun (digits, exponent) => Binary64.ofDecimal false digits exponent := by
  unfold decimal?
  split
  next negative body hsign =>
  split at hsign
  · next heq => exact absurd (List.cons.inj heq).1 hminus
  · next heq => exact absurd (List.cons.inj heq).1 hplus
  · obtain ⟨rfl, rfl⟩ := Prod.mk.inj hsign
    rfl

theorem decimal?_minus (rest : List Char) :
    decimal? ('-' :: rest) =
      (magnitude? rest).bind fun (digits, exponent) => Binary64.ofDecimal true digits exponent := rfl

end Literal

namespace Condition

open Template (Lookup)
open Nesting

theorem toList_toString_ofNat (n : Nat) : (toString (Int.ofNat n)).toList = Nat.toDigits 10 n := Nat.toList_repr

theorem toList_toString_negSucc (n : Nat) : (toString (Int.negSucc n)).toList = '-' :: Nat.toDigits 10 (n + 1) := by
  simp [Int.repr]

/-! ### Kinds of characters -/

/-- A character with which an operator or a parenthesis begins. -/
def isSign (c : Char) : Bool := ['|', '&', '!', '=', '<', '>', '('].contains c

/-- A character that begins no operator is none of a connective. -/
theorem not_mem_connectives {c : Char} (h : isSign c = false) : c ∉ bars ∧ c ∉ amps := by
  have hbars : ∀ c ∈ bars, isSign c = true := List.all_eq_true.mp rfl
  have hamps : ∀ c ∈ amps, isSign c = true := List.all_eq_true.mp rfl
  have hne : ∀ d, isSign d = true → d ≠ c := fun _ hd => ne_of_kind hd h
  exact ⟨fun hmem => hne c (hbars c hmem) rfl, fun hmem => hne c (hamps c hmem) rfl⟩

/-- A character of paths, integers and constants. -/
def isWordChar (c : Char) : Bool :=
  isLetter c || isDigit c || c == '_' || c == '-' || c == '.' || c == '[' || c == ']'

theorem isWordChar_toNat {c : Char} (h : isWordChar c = true) :
    (97 ≤ c.toNat ∧ c.toNat ≤ 122) ∨ (65 ≤ c.toNat ∧ c.toNat ≤ 90) ∨ (48 ≤ c.toNat ∧ c.toNat ≤ 57) ∨
      c.toNat = 95 ∨ c.toNat = 45 ∨ c.toNat = 46 ∨ c.toNat = 91 ∨ c.toNat = 93 := by
  have hval : c.val.toNat = c.toNat := rfl
  simp only [isWordChar, isLetter, isDigit, Char.le_def, UInt32.le_iff_toNat_le, Bool.or_eq_true, Bool.and_eq_true,
    decide_eq_true_eq, beq_iff_eq] at h
  rcases h with (((((h | h) | rfl) | rfl) | rfl) | rfl) | rfl
  · rcases h with h | h
    · exact Or.inl h
    · exact Or.inr (Or.inl h)
  · exact Or.inr (Or.inr (Or.inl h))
  all_goals simp

theorem isWordChar_spec {c : Char} (h : isWordChar c = true) :
    Text.isBlank c = false ∧ isPlain c = true ∧ isSign c = false ∧ Template.isBrace c = false := by
  have hne : ∀ d, isWordChar d = false → c ≠ d := fun _ => ne_of_kind h
  refine ⟨?_, ?_, ?_, ?_⟩
  · have hn := isWordChar_toNat h
    simp only [Text.isBlank, Bool.or_eq_false_iff, Bool.and_eq_false_iff, decide_eq_false_iff_not, beq_eq_false_iff_ne]
    omega
  · simp [isPlain, hne '\'' rfl, hne '"' rfl, hne '(' rfl, hne ')' rfl]
  · simp [isSign, hne '|' rfl, hne '&' rfl, hne '!' rfl, hne '=' rfl, hne '<' rfl, hne '>' rfl, hne '(' rfl]
  · simp [Template.isBrace, hne '\x7b' rfl, hne '\x7d' rfl]

/-! ### Texts of terms -/

/-- A text of word characters that is not empty. -/
structure IsWord (s : List Char) : Prop where
  ne_nil : s ≠ []
  chars : ∀ c ∈ s, isWordChar c = true

/-- A text that can stand next to an operator: no operator lies open in it, and it is not cut when it is trimmed. -/
structure Clear (s : List Char) : Prop where
  closed : Closed s
  exposed : ∀ c ∈ exposed top s, isSign c = false
  head : ∃ c rest, s = c :: rest ∧ Text.isBlank c = false ∧ isSign c = false
  last : ∃ init c, s = init ++ [c] ∧ Text.isBlank c = false ∧ isSign c = false

theorem Clear.tight {s : List Char} (h : Clear s) : Text.Tight s where
  head := by
    obtain ⟨c, rest, hs, hc, -⟩ := h.head
    exact ⟨c, rest, hs, hc⟩
  last := by
    obtain ⟨init, c, hs, hc, -⟩ := h.last
    exact ⟨init, c, hs, hc⟩

theorem IsWord.clear {s : List Char} (h : IsWord s) : Clear s where
  closed := Closed.plain fun c hc => (isWordChar_spec (h.chars c hc)).2.1
  exposed c hc := (isWordChar_spec (h.chars c (exposed_subset hc))).2.2.1
  head := by
    obtain ⟨c, rest, rfl⟩ := List.exists_cons_of_ne_nil h.ne_nil
    obtain ⟨hblank, -, hsign, -⟩ := isWordChar_spec (h.chars c List.mem_cons_self)
    exact ⟨c, rest, rfl, hblank, hsign⟩
  last := by
    obtain ⟨init, c, hs⟩ := (List.eq_nil_or_concat s).resolve_left h.ne_nil
    rw [List.concat_eq_append] at hs
    obtain ⟨hblank, -, hsign, -⟩ := isWordChar_spec (h.chars c (by simp [hs]))
    exact ⟨init, c, hs, hblank, hsign⟩

theorem IsWord.of_isPath {s : List Char} (h : isPath s = true) : IsWord s := by
  cases s with
  | nil => cases h
  | cons c rest =>
    rw [isPath, Bool.and_eq_true, List.all_eq_true] at h
    refine ⟨List.cons_ne_nil c rest, List.forall_mem_cons.mpr ⟨?_, h.2⟩⟩
    rcases Bool.or_eq_true_iff.mp h.1 with h | h <;> simp [isWordChar, h]

theorem Variable.word (v : Variable) : IsWord v.path := .of_isPath v.isPath

theorem integer_word (n : Int) : IsWord (toString n).toList := by
  have hdigits : ∀ m, ∀ c ∈ Nat.toDigits 10 m, isWordChar c = true := by
    intro m c hc
    have hdigit : Condition.isDigit c = true := Literal.isDigit_of_mem_toDigits hc
    simp [isWordChar, hdigit]
  cases n with
  | ofNat m =>
    rw [toList_toString_ofNat]
    exact ⟨Nat.toDigits_ne_nil, hdigits m⟩
  | negSucc m =>
    rw [toList_toString_negSucc]
    exact ⟨List.cons_ne_nil _ _, List.forall_mem_cons.mpr ⟨rfl, hdigits _⟩⟩

namespace Term

/-- A term is written as a word, between braces, or in quotes. -/
theorem written_cases (t : Term) :
    IsWord t.written ∨ (∃ v, t = .placeholder v) ∨ ∃ q, t = .quoted q := by
  cases t with
  | bare v => exact Or.inl v.word
  | placeholder v => exact Or.inr (Or.inl ⟨v, rfl⟩)
  | integer n => exact Or.inl (integer_word n)
  | constant b => cases b <;> exact Or.inl ⟨List.cons_ne_nil _ _, List.all_eq_true.mp rfl⟩
  | null => exact Or.inl ⟨List.cons_ne_nil _ _, List.all_eq_true.mp rfl⟩
  | quoted q => exact Or.inr (Or.inr ⟨q, rfl⟩)

theorem written_placeholder (v : Variable) :
    (Term.placeholder v).written = ['\x7b', '\x7b', ' '] ++ v.path ++ [' ', '\x7d', '\x7d'] := by
  simp [written, Template.written]

theorem placeholder_clear (v : Variable) : Clear (Term.placeholder v).written := by
  have hchars : ∀ c ∈ (Term.placeholder v).written, isPlain c = true ∧ isSign c = false := by
    rw [written_placeholder]
    have hpath : ∀ c ∈ v.path, isPlain c = true ∧ isSign c = false := fun c hc =>
      have hchar := isWordChar_spec (v.word.chars c hc)
      ⟨hchar.2.1, hchar.2.2.1⟩
    refine List.forall_mem_append.mpr ⟨List.forall_mem_append.mpr ⟨?_, hpath⟩, ?_⟩ <;> simp [isPlain, isSign]
  exact {
    closed := Closed.plain fun c hc => (hchars c hc).1
    exposed := fun c hc => (hchars c (exposed_subset hc)).2
    head := ⟨'\x7b', _, rfl, rfl, rfl⟩
    last := ⟨['\x7b', '\x7b', ' '] ++ v.path ++ [' ', '\x7d'], '\x7d', by simp [written_placeholder], rfl, rfl⟩ }

theorem quoted_clear (q : Quoted) : Clear (Term.quoted q).written := by
  have hquote : Text.isBlank q.quote = false ∧ isSign q.quote = false := by
    rcases q.isQuote with h | h <;> rw [h] <;> decide
  exact {
    closed := Closed.quoted q.isQuote q.unquoted
    exposed := by
      have hexposed : Condition.exposed top (Term.quoted q).written = [q.quote] := exposed_quoted q.isQuote q.unquoted
      rw [hexposed]
      exact List.forall_mem_singleton.mpr hquote.2
    head := ⟨q.quote, _, rfl, hquote⟩
    last := ⟨_, q.quote, rfl, hquote⟩ }

theorem clear (t : Term) : Clear t.written := by
  rcases t.written_cases with h | ⟨v, rfl⟩ | ⟨q, rfl⟩
  · exact h.clear
  · exact placeholder_clear v
  · exact quoted_clear q

end Term

/-! ### Operands -/

/-- The first character of a path. -/
theorem Variable.head (v : Variable) : ∃ c rest, v.path = c :: rest ∧ (isLetter c || c == '_') = true := by
  have hpath := v.isPath
  cases hv : v.path with
  | nil =>
    rw [hv] at hpath
    cases hpath
  | cons c rest =>
    rw [hv, Condition.isPath, Bool.and_eq_true] at hpath
    exact ⟨c, rest, rfl, hpath.1⟩

theorem letter_ne {c d : Char} (h : (isLetter c || c == '_') = true) (hd : (isLetter d || d == '_') = false) : c ≠ d :=
  ne_of_kind (p := fun c => isLetter c || c == '_') h hd

theorem notDigit_of_letter {c : Char} (h : (isLetter c || c == '_') = true) : isDigit c = false := by
  simp only [isLetter, Char.le_def, UInt32.le_iff_toNat_le, Bool.or_eq_true, Bool.and_eq_true, decide_eq_true_eq,
    beq_iff_eq] at h
  simp only [isDigit, Char.le_def, UInt32.le_iff_toNat_le, Bool.and_eq_false_iff, decide_eq_false_iff_not]
  rcases h with (h | h) | rfl
  · right
    simp at h ⊢
    omega
  · right
    simp at h ⊢
    omega
  · simp

/-- No digits begin with a character that is none. -/
theorem digits?_cons_eq_none {c : Char} (h : isDigit c = false) (rest : List Char) :
    Literal.digits? 10 (c :: rest) = none := by
  simp [Literal.digits?, Literal.step_eq_none h]

/-- A path is no literal. -/
theorem literal?_path (v : Variable) : literal? v.path = none := by
  obtain ⟨c, rest, hv, hc⟩ := v.head
  have hne : ∀ d, (isLetter d || d == '_') = false → c ≠ d := fun _ => letter_ne hc
  have hdigit : Literal.isDigit c = false := notDigit_of_letter hc
  have hfree := v.free
  simp only [reserved, List.mem_cons, not_or] at hfree
  obtain ⟨htrue, hfalse, hnull, -⟩ := hfree
  have hsigned : Literal.signed? 10 Literal.signedBound v.path = none := by
    rw [hv, Literal.signed?_unsigned (hne '-' rfl) (hne '+' rfl), digits?_cons_eq_none hdigit]
    rfl
  have hdecimal : Literal.decimal? v.path = none := by
    have hmagnitude : Literal.magnitude? (c :: rest) = none := by
      simp [Literal.magnitude?, hdigit, hne '.' rfl, Literal.digits?]
    rw [hv, Literal.decimal?_unsigned (hne '-' rfl) (hne '+' rfl), hmagnitude]
    rfl
  rw [literal?, if_neg htrue, if_neg hfalse, if_neg hnull, hsigned, hdecimal]
  dsimp only
  refine if_neg ?_
  simp [hv, hne '[' rfl, hne '\x7b' rfl]

/-- A text that begins like a number is no literal but a number. -/
theorem literal?_number {c : Char} (h : (c == '-' || isDigit c) = true) (rest : List Char) :
    literal? (c :: rest) =
      ((Literal.signed? 10 Literal.signedBound (c :: rest)).map fun n => .num (.int n)).or
        ((Literal.decimal? (c :: rest)).map fun x => .num (.float x)) := by
  have hne : ∀ d, (d == '-' || isDigit d) = false → c ≠ d := fun _ => ne_of_kind (p := fun c => c == '-' || isDigit c) h
  unfold literal?
  rw [if_neg (by simp [hne 't' rfl]), if_neg (by simp [hne 'f' rfl]), if_neg (by simp [hne 'n' rfl])]
  cases Literal.signed? 10 Literal.signedBound (c :: rest) with
  | some n => rfl
  | none =>
    cases Literal.decimal? (c :: rest) with
    | some x => rfl
    | none => exact if_neg (by simp [hne '[' rfl, hne '\x7b' rfl])

/-- An integer is read as itself, or as a float, or as no literal. -/
theorem literal?_integer (n : Int) : literal? (toString n).toList = (integerValue n).toOption := by
  cases n with
  | ofNat m =>
    obtain ⟨c, rest, hdigits, hc⟩ := Literal.exists_digit m
    have hc : isDigit c = true := hc
    have hne : ∀ d, isDigit d = false → c ≠ d := fun _ => ne_of_kind hc
    have hvalue := Literal.digits?_toDigits m
    have hmagnitude := Literal.magnitude?_toDigits m
    rw [hdigits] at hvalue hmagnitude
    rw [toList_toString_ofNat, hdigits, literal?_number (by simp [hc]),
      Literal.signed?_unsigned (hne '-' rfl) (hne '+' rfl), hvalue, Literal.decimal?_unsigned (hne '-' rfl) (hne '+' rfl), hmagnitude]
    by_cases hm : m < Literal.signedBound
    · have hfilter : (some m).filter (· < Literal.signedBound) = some m := by simp [Option.filter, hm]
      rw [hfilter, integerValue, if_pos ⟨by simp, by simpa using hm⟩]
      rfl
    · have hfilter : (some m).filter (· < Literal.signedBound) = none := by simp [Option.filter, hm]
      have hsign : decide (Int.ofNat m < 0) = false := by simp
      rw [hfilter, integerValue, if_neg fun hin => hm (by simpa using hin.2), hsign]
      have habs : (Int.ofNat m).natAbs = m := rfl
      rw [habs, Option.bind_some]
      dsimp only
      cases Binary64.ofDecimal false m 0 <;> rfl
  | negSucc m =>
    rw [toList_toString_negSucc, literal?_number rfl, Literal.signed?, Literal.digits?_toDigits, Literal.decimal?_minus,
      Literal.magnitude?_toDigits]
    by_cases hm : m + 1 ≤ Literal.signedBound
    · have hfilter : (some (m + 1)).filter (· ≤ Literal.signedBound) = some (m + 1) := by simp [Option.filter, hm]
      rw [hfilter, integerValue, if_pos ⟨by omega, by omega⟩]
      rfl
    · have hfilter : (some (m + 1)).filter (· ≤ Literal.signedBound) = none := by simp [Option.filter, hm]
      have hsign : decide (Int.negSucc m < 0) = true := by simp
      rw [hfilter, integerValue, if_neg fun hin => hm (by omega), hsign, Int.natAbs_negSucc, Option.bind_some]
      dsimp only
      cases Binary64.ofDecimal true (m + 1) 0 <;> rfl

theorem integerValue_cases (n : Int) :
    (∃ v, integerValue n = .ok v) ∨ integerValue n = .error (invalid (toString n).toList .malformedLiteral) := by
  unfold integerValue
  split
  · exact Or.inl ⟨_, rfl⟩
  · cases Binary64.ofDecimal (n < 0) n.natAbs 0 with
    | some x => exact Or.inl ⟨_, rfl⟩
    | none => exact Or.inr rfl

theorem integer_beginsLikeLiteral (n : Int) : beginsLikeLiteral (toString n).toList = true := by
  cases n with
  | ofNat m =>
    obtain ⟨c, rest, hdigits, hc⟩ := Literal.exists_digit m
    have hc : isDigit c = true := hc
    rw [(toList_toString_ofNat m).trans hdigits]
    simp [beginsLikeLiteral, hc]
  | negSucc m =>
    rw [toList_toString_negSucc]
    rfl

/-- A text that does not begin with a brace is no placeholder. -/
theorem single?_of_head {s rest : List Char} {c : Char} (h : Text.Tight s) (hs : s = c :: rest) (hc : c ≠ '\x7b') :
    Template.single? s = none := by
  rw [Template.single?, h.trim, hs, Template.placeholder?]
  simp [hc]

theorem IsWord.single? {s : List Char} (h : IsWord s) : Template.single? s = none := by
  obtain ⟨c, rest, hs⟩ := List.exists_cons_of_ne_nil h.ne_nil
  exact single?_of_head h.clear.tight hs (ne_of_kind (h.chars c (by simp [hs])) rfl)

/-- What a word stands for. -/
theorem operand_word (lookup : Lookup) {s : List Char} (h : IsWord s) :
    operand lookup s =
      match literal? s with
      | some v => .ok (.value v)
      | none =>
        if beginsLikeLiteral s then .error (invalid s .malformedLiteral)
        else if isPath s then .ok (ofPath lookup s)
        else .error (invalid s .unsupportedOperand) := by
  obtain ⟨c, rest, hs⟩ := List.exists_cons_of_ne_nil h.ne_nil
  have hchars := fun d hd => isWordChar_spec (h.chars d hd)
  obtain ⟨-, hplain, -⟩ := hchars c (by simp [hs])
  have hquoted : quoted? s = none := by
    simp only [isPlain, Bool.and_eq_true, bne_iff_ne, ne_eq] at hplain
    rw [hs, quoted?, if_neg (by simp [hplain])]
  have hsingle : Template.single? s = none := h.single?
  have hno : Text.occursIn ['\x7b', '\x7b'] s = false := by
    rw [Bool.eq_false_iff]
    intro hoccurs
    have hmem : '\x7b' ∈ s := (Text.occursIn_iff.mp hoccurs).subset (by simp)
    cases (hchars _ hmem).2.2.2
  unfold operand
  rw [h.clear.tight.trim]
  dsimp only
  rw [List.isEmpty_eq_false_iff.mpr h.ne_nil, hquoted, hsingle, hno]
  rfl

/-- What stands between the braces of a placeholder is read back, whatever follows it. -/
theorem placeholder?_written {inner : List Char} (h : ∀ c ∈ inner, Template.isBrace c = false) (rest : List Char) :
    Template.placeholder? (Template.written inner ++ rest) = some (inner, rest) := by
  have hplain : ∀ c ∈ inner, (!Template.isBrace c) = true := fun c hc => by rw [h c hc]; rfl
  have hdrop : (inner ++ '\x7d' :: '\x7d' :: rest).dropWhile (!Template.isBrace ·) = '\x7d' :: '\x7d' :: rest := by
    rw [List.dropWhile_append_of_pos hplain]
    rfl
  have htake : (inner ++ '\x7d' :: '\x7d' :: rest).takeWhile (!Template.isBrace ·) = inner := by
    rw [List.takeWhile_append_of_pos hplain]
    exact List.append_nil inner
  have htext : Template.written inner ++ rest = '\x7b' :: '\x7b' :: (inner ++ '\x7d' :: '\x7d' :: rest) := by
    simp [Template.written]
  rw [htext, Template.placeholder?, hdrop, htake]
  rfl

/-- A text without braces has no placeholders. -/
theorem pieces_unbraced {s : List Char} (h : ∀ c ∈ s, Template.isBrace c = false) :
    Template.pieces s = s.map .char := by
  unfold Template.pieces
  induction s with
  | nil => rfl
  | cons c s ih =>
    obtain ⟨hc, hs⟩ := List.forall_mem_cons.mp h
    have hbrace : c ≠ '\x7b' := by
      rintro rfl
      cases hc
    have hnone : Template.placeholder? (c :: s) = none := by
      unfold Template.placeholder?
      split
      · next heq => exact absurd (List.cons.inj heq).1 hbrace
      · rfl
    rw [Template.piecesFrom, hnone, List.map_cons, ← ih hs]

theorem ofTemplate_unbraced (lookup : Lookup) {s : List Char} (h : ∀ c ∈ s, Template.isBrace c = false)
    (read : List Char → Json) : ofTemplate lookup s read = .value (read s) := by
  have hunresolved : Template.unresolved lookup s = [] := by
    rw [Template.unresolved, pieces_unbraced h, List.filterMap_map]
    exact List.filterMap_eq_nil_iff.mpr fun c _ => rfl
  have hexpand : Template.expand lookup s = s := by
    rw [Template.expand, pieces_unbraced h, List.flatMap_map]
    exact List.flatMap_singleton' s
  rw [ofTemplate, hunresolved, hexpand]

theorem quoted?_written (q : Quoted) : quoted? (Term.quoted q).written = some q.text := by
  have hbefore : Text.before? [q.quote] (q.text ++ [q.quote]) = some q.text := Text.before?_eq_some.mpr rfl
  simp [Term.written, quoted?, q.isQuote, hbefore, q.unquoted]

namespace Term

/-- A placeholder is read back, whatever follows it. -/
theorem placeholder?_placeholder (v : Variable) (rest : List Char) :
    Template.placeholder? ((Term.placeholder v).written ++ rest) = some (' ' :: (v.path ++ [' ']), rest) := by
  have hpath : ∀ c ∈ v.path, Template.isBrace c = false := fun c hc => (isWordChar_spec (v.word.chars c hc)).2.2.2
  have hinner : ∀ c ∈ ' ' :: (v.path ++ [' ']), Template.isBrace c = false :=
    List.forall_mem_cons.mpr ⟨rfl, List.forall_mem_append.mpr ⟨hpath, List.forall_mem_singleton.mpr rfl⟩⟩
  exact placeholder?_written hinner rest

theorem single?_placeholder (v : Variable) : Template.single? (Term.placeholder v).written = some v.path := by
  have htrim : Text.trim (' ' :: (v.path ++ [' '])) = v.path := by
    rw [Text.trim_cons_of_blank rfl, Text.trim_concat_of_blank rfl, v.word.clear.tight.trim]
  have hread := placeholder?_placeholder v []
  rw [List.append_nil] at hread
  rw [Template.single?, (placeholder_clear v).tight.trim, hread]
  exact congrArg some htrim

/-- The operand that the text of a term stands for is the one that the term means. -/
theorem operand_written (lookup : Lookup) (t : Term) : Condition.operand lookup t.written = t.operand lookup := by
  cases t with
  | bare v =>
    obtain ⟨c, rest, hv, hc⟩ := v.head
    have hbegins : beginsLikeLiteral v.path = false := by
      simp [hv, beginsLikeLiteral, notDigit_of_letter hc, letter_ne hc (d := '-') rfl, letter_ne hc (d := '[') rfl,
        letter_ne hc (d := '\x7b') rfl]
    rw [written, operand_word lookup v.word, literal?_path v]
    dsimp only
    rw [hbegins, v.isPath]
    rfl
  | placeholder v =>
    unfold Condition.operand
    rw [(placeholder_clear v).tight.trim]
    dsimp only
    rw [List.isEmpty_eq_false_iff.mpr (placeholder_clear v).tight.ne_nil, single?_placeholder]
    rfl
  | integer n =>
    rw [written, operand_word lookup (integer_word n), literal?_integer, operand]
    rcases integerValue_cases n with ⟨v, hvalue⟩ | hvalue
    · rw [hvalue]
      rfl
    · rw [hvalue, integer_beginsLikeLiteral]
      rfl
  | constant b => cases b <;> rfl
  | null => rfl
  | quoted q =>
    unfold Condition.operand
    rw [(quoted_clear q).tight.trim]
    dsimp only
    rw [List.isEmpty_eq_false_iff.mpr (quoted_clear q).tight.ne_nil, quoted?_written]
    dsimp only
    rw [ofTemplate_unbraced lookup q.unbraced]
    rfl

end Term

end Condition

end StepTree
