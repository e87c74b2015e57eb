import Mathlib.Algebra.Group.Nat.Defs
import StepTree.Proofs.Condition.Term
import StepTree.Trace.Timestamp

/-! # Points in time survive their text

The text of a point in time has no blanks, its numbers have as many digits as are read, and it ends in `Z`, so what is
read from it is the time itself: any year of the calendar, any fraction of a second down to the nanosecond. -/

namespace StepTree.Timestamp

/-! ### Digits -/

theorem ofNat_digit {d : Nat} (h : d < 10) : Char.ofNat (48 + d) = d.digitChar := by
  have hdigit : ∀ d : Fin 10, Char.ofNat (48 + d) = Nat.digitChar d := by decide
  exact hdigit ⟨d, h⟩

theorem digits_succ (width n : Nat) :
    digits (width + 1) n = (n / Nat.pow 10 width % 10).digitChar :: digits width n := by
  rw [digits, List.range_succ, List.reverse_append, List.reverse_singleton, List.singleton_append, List.map_cons,
    ofNat_digit (Nat.mod_lt _ (by decide))]
  rfl

theorem length_digits (width n : Nat) : (digits width n).length = width := by
  rw [digits, List.length_map, List.length_reverse, List.length_range]

theorem isDigit_digits {width n : Nat} {c : Char} (h : c ∈ digits width n) : Literal.isDigit c = true := by
  have hdigit : ∀ d : Fin 10, Literal.isDigit (Nat.digitChar d) = true := by decide
  obtain ⟨place, -, rfl⟩ := List.mem_map.mp h
  have hsmall : n / Nat.pow 10 place % 10 < 10 := Nat.mod_lt _ (by decide)
  rw [ofNat_digit hsmall]
  exact hdigit ⟨_, hsmall⟩

theorem foldlM_digits (width n acc : Nat) :
    (digits width n).foldlM (Literal.digits?.step 10) acc = some (acc * 10 ^ width + n % 10 ^ width) := by
  induction width generalizing acc with
  | zero => simp [digits, Nat.mod_one]
  | succ width ih =>
    rw [digits_succ, List.foldlM_cons, Literal.step_digitChar (Nat.mod_lt _ (by decide)), Option.bind_eq_bind,
      Option.bind_some, ih, Nat.mod_pow_succ, Nat.pow_succ]
    congr 1
    change (acc * 10 + n / 10 ^ width % 10) * 10 ^ width + n % 10 ^ width = _
    rw [Nat.add_mul, Nat.mul_assoc, Nat.mul_comm 10, Nat.mul_comm (n / 10 ^ width % 10)]
    omega

theorem digits?_digits {width n : Nat} (some_digit : 0 < width) (h : n < 10 ^ width) :
    Literal.digits? 10 (digits width n) = some n := by
  have hne : digits width n ≠ [] := by
    intro hnil
    have hlength := length_digits width n
    rw [hnil] at hlength
    exact absurd hlength (Nat.ne_of_lt some_digit)
  rw [Literal.digits?, List.isEmpty_eq_false_iff.mpr hne, if_neg (by decide), foldlM_digits, Nat.zero_mul, Nat.zero_add,
    Nat.mod_eq_of_lt h]

/-- Zeros in front do not matter. -/
theorem digits?_replicate_zero (count n : Nat) :
    Literal.digits? 10 (List.replicate count '0' ++ Nat.toDigits 10 n) = some n := by
  have hzeros : (List.replicate count '0').foldlM (Literal.digits?.step 10) 0 = some 0 := by
    induction count with
    | zero => rfl
    | succ count ih => rw [List.replicate_succ, List.foldlM_cons]; exact ih
  have hne : List.replicate count '0' ++ Nat.toDigits 10 n ≠ [] := by simp
  rw [Literal.digits?, List.isEmpty_eq_false_iff.mpr hne, if_neg (by decide), List.foldlM_append, hzeros]
  exact Literal.foldlM_toDigits n

/-! ### Reading numbers -/

theorem trimStart_cons {c : Char} (h : Text.isBlank c = false) (rest : List Char) :
    Text.trimStart (c :: rest) = c :: rest := by
  rw [Text.trimStart, List.dropWhile_cons, h]
  rfl

theorem not_blank_of_isDigit {c : Char} (h : Literal.isDigit c = true) : Text.isBlank c = false := by
  have hrange : 48 ≤ c.toNat ∧ c.toNat ≤ 57 := by
    simpa [Literal.isDigit, Char.le_def, UInt32.le_iff_toNat_le] using h
  simp only [Text.isBlank, Bool.or_eq_false_iff, Bool.and_eq_false_iff, decide_eq_false_iff_not, beq_eq_false_iff_ne]
  omega

/-- All digits are read when as many may be read and no other follows. -/
theorem digits?_append {width n : Nat} {ds rest : List Char} (all : ∀ c ∈ ds, Literal.isDigit c = true)
    (value : Literal.digits? 10 ds = some n) (fits : ds.length ≤ width)
    (ends : ds.length = width ∨ ∀ c ∈ rest.head?, Literal.isDigit c = false) :
    digits? width (ds ++ rest) = some (n, rest) := by
  have hnone : (rest.take (width - ds.length)).takeWhile Literal.isDigit = [] := by
    rcases ends with hwidth | hends
    · rw [hwidth, Nat.sub_self, List.take_zero, List.takeWhile_nil]
    · cases rest with
      | nil => rw [List.take_nil, List.takeWhile_nil]
      | cons c rest =>
        cases width - ds.length with
        | zero => rw [List.take_zero, List.takeWhile_nil]
        | succ more => rw [List.take_succ_cons, List.takeWhile_cons_of_neg (by simp [hends c rfl])]
  have htake : ((ds ++ rest).take width).takeWhile Literal.isDigit = ds := by
    rw [List.take_append, List.take_of_length_le fits, List.takeWhile_append_of_pos all, hnone, List.append_nil]
  rw [digits?]
  simp only [htake, value, Option.map_some, List.drop_left]

theorem exists_digits_eq_cons {width : Nat} (some_digit : 0 < width) (n : Nat) :
    ∃ c ds, digits width n = c :: ds ∧ Literal.isDigit c = true := by
  obtain ⟨c, ds, hds⟩ : ∃ c ds, digits width n = c :: ds :=
    List.exists_cons_of_length_pos (by rw [length_digits]; exact some_digit)
  exact ⟨c, ds, hds, isDigit_digits (by rw [hds]; exact List.mem_cons_self)⟩

theorem number?_digits {width n : Nat} (some_digit : 0 < width) (h : n < 10 ^ width) (rest : List Char) :
    number? width (digits width n ++ rest) = some (n, rest) := by
  obtain ⟨c, ds, hds, hc⟩ := exists_digits_eq_cons some_digit n
  have htrim : Text.trimStart (digits width n ++ rest) = digits width n ++ rest := by
    rw [hds, List.cons_append, trimStart_cons (not_blank_of_isDigit hc)]
  rw [number?, htrim]
  exact digits?_append (fun _ => isDigit_digits) (digits?_digits some_digit h) (Nat.le_of_eq (length_digits ..))
    (.inl (length_digits ..))

theorem expect?_cons {c : Char} (h : Text.isBlank c = false) (rest : List Char) :
    expect? c (c :: rest) = some rest := by
  rw [expect?, trimStart_cons h]
  exact Text.after?_append [c] rest

/-! ### Years and fractions -/

theorem year?_digits {n : Nat} (h : n < 10 ^ 4) (rest : List Char) :
    year? (digits 4 n ++ rest) = some ((n : Int), rest) := by
  have hread : digits? 4 (digits 4 n ++ rest) = some (n, rest) :=
    digits?_append (fun _ => isDigit_digits) (digits?_digits (by decide) h) (Nat.le_refl 4) (.inl (length_digits ..))
  obtain ⟨c, ds, hds, hc⟩ := exists_digits_eq_cons (show 0 < 4 by decide) n
  rw [hds, List.cons_append] at hread ⊢
  unfold year?
  rw [trimStart_cons (not_blank_of_isDigit hc)]
  split
  · next heq =>
    cases heq
    exact absurd hc (by decide)
  · next heq =>
    cases heq
    exact absurd hc (by decide)
  · rw [hread]
    rfl

theorem year?_minus (s : List Char) :
    year? ('-' :: s) = (digits? s.length s).map fun (n, rest) => (-(n : Int), rest) := by
  rw [year?, trimStart_cons (by decide)]
  rfl

theorem year?_plus (s : List Char) :
    year? ('+' :: s) = (digits? s.length s).map fun (n, rest) => ((n : Int), rest) := by
  rw [year?, trimStart_cons (by decide)]
  rfl

theorem year?_yearText (year : Int) (rest : List Char) :
    year? (yearText year ++ '-' :: rest) = some (year, '-' :: rest) := by
  rw [yearText]
  split
  · next h => rw [year?_digits (by omega), Int.toNat_of_nonneg h.1]
  · next h =>
    generalize hzeros : List.replicate (4 - (Nat.toDigits 10 year.natAbs).length) '0' = zeros
    have hread : digits? (zeros ++ Nat.toDigits 10 year.natAbs ++ '-' :: rest).length
        (zeros ++ Nat.toDigits 10 year.natAbs ++ '-' :: rest) = some (year.natAbs, '-' :: rest) := by
      refine digits?_append ?_ (hzeros ▸ digits?_replicate_zero _ _) (by simp) (.inr ?_)
      · intro c hc
        rcases List.mem_append.mp hc with hc | hc
        · rw [← hzeros] at hc
          rw [List.eq_of_mem_replicate hc]
          rfl
        · exact Literal.isDigit_of_mem_toDigits hc
      · rintro c ⟨⟩
        rfl
    by_cases hneg : year < 0
    · have habs : -(year.natAbs : Int) = year := by omega
      rw [if_pos hneg, List.cons_append, hzeros, year?_minus, hread]
      exact congrArg (fun y : Int => some (y, _)) habs
    · have habs : (year.natAbs : Int) = year := by omega
      rw [if_neg hneg, List.cons_append, hzeros, year?_plus, hread]
      exact congrArg (fun y : Int => some (y, _)) habs

theorem fraction?_digits {width n : Nat} (some_digit : 0 < width) (fits : width ≤ 9) (h : n < 10 ^ width) :
    fraction? ('.' :: digits width n ++ ['Z']) = some (n * 10 ^ (9 - width), ['Z']) := by
  have htake : (digits width n ++ ['Z']).takeWhile Literal.isDigit = digits width n := by
    rw [List.takeWhile_append_of_pos fun _ => isDigit_digits, List.takeWhile_cons_of_neg (by decide), List.append_nil]
  have hdrop : (digits width n ++ ['Z']).dropWhile Literal.isDigit = ['Z'] := by
    rw [List.dropWhile_append_of_pos fun _ => isDigit_digits, List.dropWhile_cons_of_neg (by decide)]
  have hall : (digits width n).take 9 = digits width n := List.take_of_length_le (by rw [length_digits]; exact fits)
  rw [List.cons_append, fraction?]
  simp only [htake, hdrop, hall, digits?_digits some_digit h, length_digits, Option.bind_eq_bind, Option.bind_some]
  rfl

theorem fraction?_fractionText {n : Nat} (h : n < 10 ^ 9) : fraction? (fractionText n ++ ['Z']) = some (n, ['Z']) := by
  rw [fractionText]
  split
  · next hzero =>
    subst hzero
    rfl
  · split
    · rw [fraction?_digits (by decide) (by decide) (by omega)]
      congr 2
      omega
    · split
      · rw [fraction?_digits (by decide) (by decide) (by omega)]
        congr 2
        omega
      · rw [fraction?_digits (by decide) (by decide) h, Nat.sub_self, Nat.pow_zero, Nat.mul_one]

theorem behind_zero {t : Timestamp} (hour : t.hour < 24) (minute : t.minute < 60) : t.behind 0 = t := by
  have hnonneg : ¬((t.hour : Int) * 60 + t.minute - 0 < 0) := by omega
  have hday : (t.hour : Int) * 60 + t.minute - 0 < 1440 := by omega
  have hwithin : (((t.hour : Int) * 60 + t.minute - 0) % 1440).toNat = t.hour * 60 + t.minute := by omega
  rw [behind]
  simp only [if_neg hnonneg, if_pos hday, hwithin]
  rw [show (t.hour * 60 + t.minute) / 60 = t.hour by omega, show (t.hour * 60 + t.minute) % 60 = t.minute by omega]

theorem daysInMonth_le (year : Int) (month : Nat) : daysInMonth year month ≤ 31 := by
  unfold daysInMonth
  split
  · split <;> decide
  · split <;> decide

/-- A time that exists is read from its text. -/
theorem ofText?_text {t : Timestamp} (valid : t.isValid = true) (fraction : t.nanosecond < 10 ^ 9) :
    ofText? t.text.toList = some t := by
  have hvalid := valid
  simp only [isValid, Bool.and_eq_true, decide_eq_true_eq] at hvalid
  obtain ⟨⟨⟨⟨⟨⟨-, hmonth⟩, -⟩, hday⟩, hhour⟩, hminute⟩, hsecond⟩ := hvalid
  have hdays := daysInMonth_le t.year t.month
  have hdash : ∀ rest, expect? '-' ('-' :: rest) = some rest := expect?_cons (by decide)
  have hcolon : ∀ rest, expect? ':' (':' :: rest) = some rest := expect?_cons (by decide)
  have htwo : ∀ {n : Nat}, n < 10 ^ 2 → ∀ rest, number? 2 (digits 2 n ++ rest) = some (n, rest) :=
    fun h rest => number?_digits (by decide) h rest
  have hoffset : offset? (Text.trimStart ['Z']) = some (0, []) := rfl
  have hend : (Text.trimStart []).isEmpty = true := rfl
  rw [text, String.toList_ofList]
  simp only [List.append_assoc, List.cons_append]
  -- The parts are read off the text from left to right.
  refine Option.bind_eq_some_iff.mpr ⟨_, year?_yearText t.year _, ?_⟩
  refine Option.bind_eq_some_iff.mpr ⟨_, hdash _, ?_⟩
  refine Option.bind_eq_some_iff.mpr ⟨_, htwo (show t.month < 10 ^ 2 by omega) _, ?_⟩
  refine Option.bind_eq_some_iff.mpr ⟨_, hdash _, ?_⟩
  refine Option.bind_eq_some_iff.mpr ⟨_, htwo (show t.day < 10 ^ 2 by omega) _, ?_⟩
  refine Option.bind_eq_some_iff.mpr ⟨_, htwo (show t.hour < 10 ^ 2 by omega) _, ?_⟩
  refine Option.bind_eq_some_iff.mpr ⟨_, hcolon _, ?_⟩
  refine Option.bind_eq_some_iff.mpr ⟨_, htwo (show t.minute < 10 ^ 2 by omega) _, ?_⟩
  refine Option.bind_eq_some_iff.mpr ⟨_, hcolon _, ?_⟩
  refine Option.bind_eq_some_iff.mpr ⟨_, htwo (show t.second < 10 ^ 2 by omega) _, ?_⟩
  refine Option.bind_eq_some_iff.mpr ⟨_, fraction?_fractionText fraction, ?_⟩
  refine Option.bind_eq_some_iff.mpr ⟨_, hoffset, ?_⟩
  dsimp only
  rw [behind_zero hhour hminute, if_pos ⟨hend, valid, valid⟩]

end StepTree.Timestamp
