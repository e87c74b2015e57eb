import StepTree.Json.Printer
import StepTree.Json.Reader
import StepTree.Proofs.Condition.Term
import StepTree.Proofs.Encoding.Values
import StepTree.Proofs.Parts

/-! # Values are read back from their text

The compact text of a value is read as the value itself, whatever its strings hold, as long as its numbers are integers,
it lists its keys in order, and it nests no deeper than the reader goes. Each part of a text is read back in front of
what follows it; only a number has to be followed by something that does not go on with it. -/

namespace StepTree

namespace Json

/-! ### Strings -/

/-- A control character is read back from its code. -/
theorem unicodeEscape?_hexDigits {c : Char} (h : c.toNat < 32) (rest : List Char) :
    unicodeEscape? ('0' :: '0' :: hexDigit (c.toNat / 16) :: hexDigit (c.toNat % 16) :: rest) = some (c, rest) := by
  have hdigits : ∀ n : Fin 32, Literal.digits? 16 ['0', '0', hexDigit (n / 16), hexDigit (n % 16)] = some n.val := by
    decide
  have hunit : unit? ('0' :: '0' :: hexDigit (c.toNat / 16) :: hexDigit (c.toNat % 16) :: rest) =
      some (c.toNat, rest) := by
    rw [unit?, hdigits ⟨c.toNat, h⟩]
    rfl
  rw [unicodeEscape?, hunit, Option.bind_eq_bind, Option.bind_some]
  dsimp only
  rw [if_neg (by omega), if_neg (by omega), Char.ofNat_toNat]

/-- A character is read back from how it stands in a string. -/
theorem stringBody?_escapeChar (c : Char) (fuel : Nat) (rest : List Char) :
    stringBody? (fuel + 1) (escapeChar c ++ rest) =
      (stringBody? fuel rest).map fun (chars, rest) => (c :: chars, rest) := by
  have hescaped : ∀ {s after : List Char}, escape? s = some (c, after) →
      stringBody? (fuel + 1) ('\\' :: s) = (stringBody? fuel after).map fun (chars, rest) => (c :: chars, rest) := by
    intro s after h
    rw [stringBody?, if_neg (by decide), if_pos rfl, h, Option.bind_eq_bind, Option.bind_some]
    dsimp only
    cases stringBody? fuel after <;> rfl
  unfold escapeChar
  split
  · next hc =>
    subst hc
    exact hescaped rfl
  split
  · next hc =>
    subst hc
    exact hescaped rfl
  split
  · next hc =>
    subst hc
    exact hescaped rfl
  split
  · next hc =>
    subst hc
    exact hescaped rfl
  split
  · next hc =>
    subst hc
    exact hescaped rfl
  split
  · next hc =>
    refine @hescaped ('b' :: rest) rest ?_
    rw [← Char.ofNat_toNat c, hc]
    rfl
  split
  · next hc =>
    refine @hescaped ('f' :: rest) rest ?_
    rw [← Char.ofNat_toNat c, hc]
    rfl
  split
  · next hc => exact hescaped (unicodeEscape?_hexDigits hc rest)
  · next hquote hslash _ _ _ _ _ hplain =>
    rw [List.singleton_append, stringBody?, if_neg hquote, if_neg hslash, if_neg hplain]
    cases stringBody? fuel rest <;> rfl

theorem stringBody?_escaped {chars : List Char} {fuel : Nat} (enough : chars.length < fuel) (rest : List Char) :
    stringBody? fuel (chars.flatMap escapeChar ++ '"' :: rest) = some (chars, rest) := by
  induction chars generalizing fuel with
  | nil =>
    obtain ⟨fuel, rfl⟩ := Nat.exists_eq_succ_of_ne_zero (Nat.ne_of_gt enough)
    rfl
  | cons c chars ih =>
    obtain ⟨fuel, rfl⟩ := Nat.exists_eq_succ_of_ne_zero (Nat.ne_of_gt (Nat.zero_lt_of_lt enough))
    rw [List.flatMap_cons, List.append_assoc, stringBody?_escapeChar, ih (Nat.lt_of_succ_lt_succ enough)]
    rfl

/-- A string is read back from its quoted text. -/
theorem string?_quote (s : String) (rest : List Char) : string? ((quote s).tail ++ rest) = some (s, rest) := by
  have hlength := length_le_escaped s.toList
  have hbody : stringBody? (s.toList.flatMap escapeChar ++ '"' :: rest).length (s.toList.flatMap escapeChar ++ '"' :: rest) =
      some (s.toList, rest) := by
    refine stringBody?_escaped ?_ rest
    rw [List.length_append, List.length_cons]
    omega
  rw [quote, List.tail_cons, string?, List.append_assoc, List.singleton_append, hbody]
  simp

/-! ### Integers -/

/-- No number goes on at the beginning of the text. -/
def EndsNumber (rest : List Char) : Prop :=
  ∀ c ∈ rest.head?, Literal.isDigit c = false ∧ c ≠ '.' ∧ c ≠ 'e' ∧ c ≠ 'E'

theorem endsNumber_nil : EndsNumber [] := nofun

theorem endsNumber_cons {c : Char} (rest : List Char) (h : c = ',' ∨ c = ']' ∨ c = '\x7d') : EndsNumber (c :: rest) := by
  rintro _ ⟨⟩
  rcases h with rfl | rfl | rfl <;> decide

/-- No zero stands in front of the digits of a number. -/
theorem toDigits_head {n : Nat} (h : 1 < (Nat.toDigits 10 n).length) : (Nat.toDigits 10 n).head? ≠ some '0' := by
  induction n using Nat.strongRecOn with
  | ind n ih =>
    rw [Nat.toDigits_eq_if (by decide)] at h ⊢
    split at h
    · exact absurd h (Nat.lt_irrefl 1)
    · next hn =>
      rw [if_neg hn]
      by_cases hsmall : n / 10 < 10
      · have hfirst : ∀ d : Fin 10, d.val ≠ 0 → [Nat.digitChar d].head? ≠ some '0' := by decide
        rw [Nat.toDigits_of_lt_base hsmall]
        exact hfirst ⟨n / 10, hsmall⟩ (by simp only; omega)
      · have hlong : 1 < (Nat.toDigits 10 (n / 10)).length := by
          rw [Nat.toDigits_eq_if (by decide), if_neg hsmall, List.length_append]
          have hpos := List.length_pos_of_ne_nil (Nat.toDigits_ne_nil (n := n / 10 / 10) (b := 10))
          simp only [List.length_singleton]
          omega
        have hne := ih (n / 10) (by omega) hlong
        rwa [List.head?_append_of_ne_nil _ Nat.toDigits_ne_nil]

theorem wholePart?_toDigits (n : Nat) {rest : List Char} (ends : EndsNumber rest) :
    wholePart? (Nat.toDigits 10 n ++ rest) = some (Nat.toDigits 10 n, rest) := by
  have hall : ∀ c ∈ Nat.toDigits 10 n, Literal.isDigit c = true := fun c => Literal.isDigit_of_mem_toDigits
  have htake : rest.takeWhile Literal.isDigit = [] := by
    cases rest with
    | nil => rfl
    | cons c rest => rw [List.takeWhile_cons_of_neg (by simp [(ends c rfl).1])]
  have hdrop : rest.dropWhile Literal.isDigit = rest := by
    cases rest with
    | nil => rfl
    | cons c rest => rw [List.dropWhile_cons_of_neg (by simp [(ends c rfl).1])]
  have hrun : digitRun? (Nat.toDigits 10 n ++ rest) = some (Nat.toDigits 10 n, rest) := by
    rw [digitRun?, List.takeWhile_append_of_pos hall, List.dropWhile_append_of_pos hall, htake, hdrop, List.append_nil]
    exact if_neg (by simp)
  rw [wholePart?, hrun, Option.bind_eq_bind, Option.bind_some]
  exact if_neg fun h => toDigits_head h.1 h.2

theorem fractionPart?_of_ends {rest : List Char} (ends : EndsNumber rest) :
    fractionPart? rest = some (none, rest) := by
  unfold fractionPart?
  split
  · exact absurd rfl (ends _ rfl).2.1
  · rfl

theorem exponentPart?_of_ends {rest : List Char} (ends : EndsNumber rest) :
    exponentPart? rest = some (none, rest) := by
  cases rest with
  | nil => rfl
  | cons c rest =>
    obtain ⟨-, -, he, hE⟩ := ends c rfl
    exact if_neg (by simp [he, hE])

theorem le_of_step {n m : Nat} {c : Char} (h : Literal.digits?.step 10 n c = some m) : n ≤ m := by
  unfold Literal.digits?.step at h
  dsimp only at h
  generalize (if '0' ≤ c ∧ c ≤ '9' then _ else _ : Nat) = d at h
  split at h
  · obtain rfl := Option.some.inj h
    omega
  · cases h

theorem le_of_foldlM {ds : List Char} {n m : Nat} (h : ds.foldlM (Literal.digits?.step 10) n = some m) : n ≤ m := by
  induction ds generalizing n with
  | nil => exact (Option.some.inj h).le
  | cons c ds ih =>
    obtain ⟨k, hstep, hrest⟩ := Option.bind_eq_some_iff.mp h
    exact (le_of_step hstep).trans (ih hrest)

/-- The digits of a number that fits 64 bits fit one by one, since none makes the number smaller. -/
theorem gather_of_foldlM {ds : List Char} {n m : Nat} (h : ds.foldlM (Literal.digits?.step 10) n = some m)
    (fits : m < Literal.word64) : gather n ds = (m, []) := by
  induction ds generalizing n with
  | nil =>
    obtain rfl := Option.some.inj h
    rfl
  | cons c ds ih =>
    obtain ⟨k, hstep, hrest⟩ := Option.bind_eq_some_iff.mp h
    have hk : k < Literal.word64 := (le_of_foldlM hrest).trans_lt fits
    rw [gather, hstep, Option.filter_some, if_pos (decide_eq_true hk)]
    exact ih hrest

theorem gather_toDigits {n : Nat} (fits : n < Literal.word64) : gather 0 (Nat.toDigits 10 n) = (n, []) :=
  gather_of_foldlM (Literal.foldlM_toDigits n) fits

/-- An integer of 64 bits, with or without a sign. -/
def IsWord (n : Int) : Prop := -Literal.signedBound ≤ n ∧ n < Literal.word64

/-- What is read of a number after its sign. -/
def unsignedNumber? (negative : Bool) (s : List Char) : Option (Number × List Char) := do
  let (whole, rest) ← wholePart? s
  let (fraction, rest) ← fractionPart? rest
  let (exponent, rest) ← exponentPart? rest
  let n ← numberOf? negative whole fraction exponent
  return (n, rest)

theorem number?_minus (rest : List Char) : number? ('-' :: rest) = unsignedNumber? true rest := rfl

theorem number?_unsigned {c : Char} (h : Literal.isDigit c = true) (rest : List Char) :
    number? (c :: rest) = unsignedNumber? false (c :: rest) := by
  unfold number?
  split
  next negative body hsign =>
  split at hsign
  · next heq =>
    obtain ⟨rfl, -⟩ := List.cons.inj heq
    cases h
  · obtain ⟨rfl, rfl⟩ := Prod.mk.inj hsign
    rfl

/-- An integer is read back from its digits. -/
theorem number?_int {n : Int} (h : IsWord n) {rest : List Char} (ends : EndsNumber rest) :
    number? (numberText (.int n) ++ rest) = some (.int n, rest) := by
  have hread : ∀ {negative m}, numberOf? negative (Nat.toDigits 10 m) none none = some (.int n) →
      unsignedNumber? negative (Nat.toDigits 10 m ++ rest) = some (.int n, rest) := by
    intro negative m hnumber
    simp [unsignedNumber?, wholePart?_toDigits m ends, fractionPart?_of_ends ends, exponentPart?_of_ends ends, hnumber]
  obtain ⟨hlow, hhigh⟩ := h
  cases n with
  | ofNat m =>
    obtain ⟨c, ds, hds, hc⟩ := Literal.exists_digit m
    have hm : m < Literal.word64 := Int.ofNat_lt.mp hhigh
    rw [numberText, Condition.toList_toString_ofNat, hds, List.cons_append, number?_unsigned hc, ← List.cons_append, ← hds]
    refine hread ?_
    simp [numberOf?, gather_toDigits hm]
  | negSucc m =>
    have hm : m + 1 ≤ Literal.signedBound := by omega
    have hword : m + 1 < Literal.word64 := hm.trans_lt (by decide)
    rw [numberText, Condition.toList_toString_negSucc, List.cons_append, number?_minus]
    refine hread ?_
    simp [numberOf?, gather_toDigits hword, hm, Int.negSucc_eq]

/-! ### Values -/

mutual

/-- How many arrays and objects lie in one another. -/
def nesting : Json → Nat
  | arr items => itemsNesting items + 1
  | obj entries => entriesNesting entries + 1
  | _ => 0

def itemsNesting : List Json → Nat
  | [] => 0
  | item :: items => max item.nesting (itemsNesting items)

def entriesNesting : List (String × Json) → Nat
  | [] => 0
  | (_, value) :: entries => max value.nesting (entriesNesting entries)

end

/-- A value all of whose numbers are integers of 64 bits. -/
inductive Integral : Json → Prop
  | null : Integral .null
  | bool (b : Bool) : Integral (.bool b)
  | int {n : Int} (word : IsWord n) : Integral (.num (.int n))
  | str (s : String) : Integral (.str s)
  | arr {items : List Json} (items_integral : ∀ j ∈ items, Integral j) : Integral (.arr items)
  | obj {entries : List (String × Json)} (values : ∀ e ∈ entries, Integral e.2) : Integral (.obj entries)

theorem nesting_le_itemsNesting {j : Json} {items : List Json} (h : j ∈ items) : j.nesting ≤ itemsNesting items := by
  induction items with
  | nil => cases h
  | cons item items ih =>
    rw [itemsNesting]
    rcases List.mem_cons.mp h with rfl | h
    · exact Nat.le_max_left _ _
    · exact (ih h).trans (Nat.le_max_right _ _)

theorem nesting_le_entriesNesting {e : String × Json} {entries : List (String × Json)} (h : e ∈ entries) :
    e.2.nesting ≤ entriesNesting entries := by
  induction entries with
  | nil => cases h
  | cons entry entries ih =>
    obtain ⟨key, value⟩ := entry
    rw [entriesNesting]
    rcases List.mem_cons.mp h with rfl | h
    · exact Nat.le_max_left _ _
    · exact (ih h).trans (Nat.le_max_right _ _)

/-- The character can begin a value. -/
def Begins (c : Char) : Prop := isSpace c = false ∧ c ≠ ']'

/-- What begins a number begins nothing else. -/
theorem ne_of_number {c : Char} (h : c = '-' ∨ Literal.isDigit c = true) (d : Char)
    (other : d ≠ '-' ∧ Literal.isDigit d = false) : c ≠ d := by
  rintro rfl
  rcases h with h | h
  · exact other.1 h
  · exact absurd (h.symm.trans other.2) (by decide)

theorem Begins.of_number {c : Char} (h : c = '-' ∨ Literal.isDigit c = true) : Begins c := by
  have hne := ne_of_number h
  refine ⟨?_, hne ']' (by decide)⟩
  simp [isSpace, hne ' ' (by decide), hne '\n' (by decide), hne '\t' (by decide), hne '\r' (by decide)]

theorem numberText_int_head (n : Int) :
    ∃ c rest, numberText (.int n) = c :: rest ∧ (c = '-' ∨ Literal.isDigit c = true) := by
  cases n with
  | ofNat m =>
    obtain ⟨c, rest, hdigits, hc⟩ := Literal.exists_digit m
    exact ⟨c, rest, (Condition.toList_toString_ofNat m).trans hdigits, Or.inr hc⟩
  | negSucc m => exact ⟨'-', _, Condition.toList_toString_negSucc m, Or.inl rfl⟩

theorem Integral.text_head {j : Json} (h : j.Integral) : ∃ c rest, j.text = c :: rest ∧ Begins c := by
  cases h with
  | null => exact ⟨'n', _, rfl, rfl, by decide⟩
  | bool b => cases b <;> exact ⟨_, _, rfl, rfl, by decide⟩
  | int word =>
    obtain ⟨c, rest, htext, hc⟩ := numberText_int_head _
    exact ⟨c, rest, htext, .of_number hc⟩
  | str s => exact ⟨'"', _, rfl, rfl, by decide⟩
  | arr _ => exact ⟨'[', _, rfl, rfl, by decide⟩
  | obj _ => exact ⟨'\x7b', _, rfl, rfl, by decide⟩

theorem skipSpace_cons {c : Char} (h : isSpace c = false) (rest : List Char) : skipSpace (c :: rest) = c :: rest := by
  rw [skipSpace, List.dropWhile_cons_of_neg (by simp [h])]

/-- With so many levels left to open, the value is read back from its text. -/
def ReadsBack (depth : Nat) (j : Json) : Prop :=
  ∀ (fuel : Nat) (rest : List Char), 2 * j.text.length ≤ fuel → EndsNumber rest →
    value? fuel depth (j.text ++ rest) = some (j, rest)

theorem value?_int {n : Int} (h : IsWord n) (depth : Nat) : ReadsBack depth (.num (.int n)) := by
  intro fuel rest enough ends
  obtain ⟨c, ds, htext, hc⟩ := numberText_int_head n
  have hread := number?_int h ends
  rw [text] at enough ⊢
  rw [htext, List.length_cons] at enough
  obtain ⟨fuel, rfl⟩ := Nat.exists_eq_add_of_le' (show 1 ≤ fuel by omega)
  have hne := ne_of_number hc
  rw [htext, List.cons_append] at hread ⊢
  rw [value?, skipSpace_cons (Begins.of_number hc).1]
  dsimp only
  rw [if_neg (hne _ (by decide)), if_neg (hne _ (by decide)), if_neg (hne _ (by decide)), if_neg (hne _ (by decide)),
    if_neg (hne _ (by decide)), if_neg (hne _ (by decide)), hread]
  rfl

theorem value?_str (s : String) (depth : Nat) : ReadsBack depth (.str s) := by
  intro fuel rest enough _
  have hread := string?_quote s rest
  rw [text] at enough ⊢
  rw [quote, List.length_cons] at enough
  obtain ⟨fuel, rfl⟩ := Nat.exists_eq_add_of_le' (show 1 ≤ fuel by omega)
  rw [quote, List.tail_cons] at hread
  rw [quote, List.cons_append, value?, skipSpace_cons (by decide)]
  dsimp only
  rw [if_pos rfl, hread]
  rfl

section
variable {fuel depth : Nat} {s rest after : List Char} {item value : Json} {key : String}

theorem items?_last (h : value? fuel depth s = some (item, ']' :: rest)) :
    items? (fuel + 1) depth s = some ([item], rest) := by
  rw [items?, h]
  rfl

theorem items?_cons {items : List Json} (h : value? fuel depth s = some (item, ',' :: rest))
    (others : items? fuel depth rest = some (items, after)) :
    items? (fuel + 1) depth s = some (item :: items, after) := by
  rw [items?, h, Option.bind_eq_bind, Option.bind_some]
  change (items? fuel depth rest).bind _ = _
  rw [others]
  rfl

theorem entries?_last (h : value? fuel depth s = some (value, '\x7d' :: rest)) :
    entries? (fuel + 1) depth (quote key ++ ':' :: s) = some ([(key, value)], rest) := by
  have hquote : quote key = '"' :: (quote key).tail := rfl
  rw [hquote, List.cons_append, entries?]
  change (string? ((quote key).tail ++ ':' :: s)).bind _ = _
  rw [string?_quote, Option.bind_some]
  change (value? fuel depth s).bind _ = _
  rw [h]
  rfl

theorem entries?_cons {entries : List (String × Json)} (h : value? fuel depth s = some (value, ',' :: rest))
    (others : entries? fuel depth rest = some (entries, after)) :
    entries? (fuel + 1) depth (quote key ++ ':' :: s) = some ((key, value) :: entries, after) := by
  have hquote : quote key = '"' :: (quote key).tail := rfl
  rw [hquote, List.cons_append, entries?]
  change (string? ((quote key).tail ++ ':' :: s)).bind _ = _
  rw [string?_quote, Option.bind_some]
  change (value? fuel depth s).bind _ = _
  rw [h, Option.bind_some]
  change (entries? fuel depth rest).bind _ = _
  rw [others]
  rfl

end

theorem items?_itemsText {depth fuel : Nat} {items : List Json} (ne_nil : items ≠ [])
    (each : ∀ j ∈ items, ReadsBack depth j) (enough : 2 * (itemsText items).length < fuel) (rest : List Char) :
    items? fuel depth (itemsText items ++ ']' :: rest) = some (items, rest) := by
  induction items generalizing fuel with
  | nil => exact absurd rfl ne_nil
  | cons item items ih =>
    obtain ⟨fuel, rfl⟩ := Nat.exists_eq_add_of_le' (show 1 ≤ fuel by omega)
    obtain ⟨hitem, hitems⟩ := List.forall_mem_cons.mp each
    by_cases hlast : items = []
    · subst hlast
      rw [itemsText] at enough ⊢
      exact items?_last (hitem fuel _ (by omega) (endsNumber_cons rest (by simp)))
    · rw [itemsText_cons hlast, List.length_append, List.length_cons] at enough
      rw [itemsText_cons hlast, List.append_assoc, List.cons_append]
      exact items?_cons (hitem fuel _ (by omega) (endsNumber_cons _ (by simp))) (ih hlast hitems (by omega))

theorem entries?_entriesText {depth fuel : Nat} {entries : List (String × Json)} (ne_nil : entries ≠ [])
    (each : ∀ e ∈ entries, ReadsBack depth e.2) (enough : 2 * (entriesText entries).length < fuel) (rest : List Char) :
    entries? fuel depth (entriesText entries ++ '\x7d' :: rest) = some (entries, rest) := by
  induction entries generalizing fuel with
  | nil => exact absurd rfl ne_nil
  | cons e entries ih =>
    obtain ⟨key, value⟩ := e
    obtain ⟨fuel, rfl⟩ := Nat.exists_eq_add_of_le' (show 1 ≤ fuel by omega)
    obtain ⟨hvalue, hentries⟩ := List.forall_mem_cons.mp each
    dsimp only at hvalue
    by_cases hlast : entries = []
    · subst hlast
      rw [entriesText, List.length_append, List.length_cons] at enough
      rw [entriesText, List.append_assoc, List.cons_append]
      exact entries?_last (hvalue fuel _ (by omega) (endsNumber_cons rest (by simp)))
    · rw [entriesText_cons hlast, List.length_append, List.length_cons, List.length_append, List.length_cons] at enough
      rw [entriesText_cons hlast, List.append_assoc, List.cons_append, List.append_assoc, List.cons_append]
      exact entries?_cons (hvalue fuel _ (by omega) (endsNumber_cons _ (by simp))) (ih hlast hentries (by omega))

/-- A list is read back if its items are, with one level less to open. -/
theorem ReadsBack.arr {depth : Nat} {items : List Json} (integral : ∀ j ∈ items, j.Integral)
    (each : ∀ j ∈ items, ReadsBack depth j) : ReadsBack (depth + 1) (.arr items) := by
  intro fuel rest enough _
  rw [text, List.length_cons, List.length_append, List.length_singleton] at enough
  obtain ⟨fuel, rfl⟩ := Nat.exists_eq_add_of_le' (show 1 ≤ fuel by omega)
  rw [text, List.cons_append, List.append_assoc, List.singleton_append, value?, skipSpace_cons (by decide)]
  dsimp only
  rw [if_neg (by decide), if_pos rfl]
  cases items with
  | nil => rfl
  | cons item items =>
    obtain ⟨c, after, htext, hspace, hbracket⟩ : ∃ c after,
        itemsText (item :: items) ++ ']' :: rest = c :: after ∧ Begins c := by
      obtain ⟨c, after, htext, hc⟩ := (integral item List.mem_cons_self).text_head
      by_cases hlast : items = []
      · exact ⟨c, after ++ ']' :: rest, by rw [hlast, itemsText, htext, List.cons_append], hc⟩
      · refine ⟨c, after ++ ',' :: itemsText items ++ ']' :: rest, ?_, hc⟩
        rw [itemsText_cons hlast, htext, List.cons_append, List.cons_append]
    have hread := @items?_itemsText _ fuel _ (List.cons_ne_nil item items) each (by omega) rest
    rw [htext] at hread ⊢
    rw [skipSpace_cons hspace]
    split
    · next heq => exact absurd (List.cons.inj heq).1 hbracket
    · rw [hread]
      rfl

/-- An object is read back if the values in it are, with one level less to open. -/
theorem ReadsBack.obj {depth : Nat} {entries : List (String × Json)} (each : ∀ e ∈ entries, ReadsBack depth e.2) :
    ReadsBack (depth + 1) (.obj entries) := by
  intro fuel rest enough _
  rw [text, List.length_cons, List.length_append, List.length_singleton] at enough
  obtain ⟨fuel, rfl⟩ := Nat.exists_eq_add_of_le' (show 1 ≤ fuel by omega)
  rw [text, List.cons_append, List.append_assoc, List.singleton_append, value?, skipSpace_cons (by decide)]
  dsimp only
  rw [if_neg (by decide), if_neg (by decide), if_pos rfl]
  cases entries with
  | nil => rfl
  | cons e entries =>
    obtain ⟨after, htext⟩ : ∃ after, entriesText (e :: entries) ++ '\x7d' :: rest = '"' :: after := by
      by_cases hlast : entries = []
      · rw [hlast, entriesText]
        exact ⟨_, rfl⟩
      · rw [entriesText_cons hlast]
        exact ⟨_, rfl⟩
    have hread := @entries?_entriesText _ fuel _ (List.cons_ne_nil e entries) each (by omega) rest
    rw [htext] at hread ⊢
    rw [skipSpace_cons (by decide)]
    change (entries? fuel depth ('"' :: after)).map _ = _
    rw [hread]
    rfl

/-- A value without floats is read back from its text, if it nests no deeper than may be opened. -/
theorem Integral.readsBack {j : Json} (integral : j.Integral) {depth : Nat} (shallow : j.nesting ≤ depth) :
    ReadsBack depth j := by
  induction integral generalizing depth with
  | null =>
    intro fuel rest enough _
    obtain ⟨fuel, rfl⟩ := Nat.exists_eq_add_of_le' (show 1 ≤ fuel from Nat.le_trans (by decide) enough)
    rfl
  | bool b =>
    intro fuel rest enough _
    cases b <;>
    · obtain ⟨fuel, rfl⟩ := Nat.exists_eq_add_of_le' (show 1 ≤ fuel from Nat.le_trans (by decide) enough)
      rfl
  | int word => exact value?_int word depth
  | str s => exact value?_str s depth
  | arr items_integral ih =>
    rw [nesting] at shallow
    obtain ⟨depth, rfl⟩ := Nat.exists_eq_add_of_le' (show 1 ≤ depth by omega)
    refine .arr items_integral fun j hj => ih j hj ?_
    have hle := nesting_le_itemsNesting hj
    omega
  | obj values ih =>
    rw [nesting] at shallow
    obtain ⟨depth, rfl⟩ := Nat.exists_eq_add_of_le' (show 1 ≤ depth by omega)
    refine .obj fun e he => ih e he ?_
    have hle := nesting_le_entriesNesting he
    omega

/-- A value whose keys are in order is not changed by ordering them. -/
theorem Normal.normalize_eq {j : Json} (normal : j.Normal) : j.normalize = j := by
  induction normal with
  | arr _ ih =>
    rw [normalize, normalizeItems_eq]
    exact congrArg Json.arr ((List.map_congr_left ih).trans (List.map_id' _))
  | @obj entries ordered _ ih =>
    have hentries : (entries.map fun e => (e.1, e.2.normalize)) = entries := by
      refine Eq.trans (List.map_congr_left fun e he => ?_) (List.map_id' entries)
      rw [ih e he]
    rw [normalize, normalizeEntries_eq, hentries, ofEntries]
    exact congrArg Json.obj
      (eq_of_ordered (sortEntries_ordered entries) ordered (sortEntries_perm (nodup_of_ordered ordered)))
  | _ => rfl

/-- A value without floats, with its keys in order, is what its text is read as. -/
theorem read?_text {j : Json} (normal : j.Normal) (integral : j.Integral) (shallow : j.nesting ≤ maxDepth) :
    read? j.text = some j := by
  have hread := integral.readsBack shallow (2 * j.text.length + 2) [] (Nat.le_add_right _ _) endsNumber_nil
  rw [List.append_nil] at hread
  have htree : tree? j.text = some j := by
    rw [tree?, hread]
    rfl
  rw [read?, htree, Option.map_some, normal.normalize_eq]

end Json

end StepTree
