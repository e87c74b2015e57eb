import StepTree.Proofs.Condition.Agreement
import StepTree.Proofs.Encoding.Texts
import StepTree.Proofs.Nearest
import StepTree.Scope.Basic

/-! # Comparisons of integers

Numbers are compared as floats. So a comparison of two integers says how their floats lie to each other, which is how
the integers lie to each other unless two that differ have the same float. -/

namespace StepTree.Condition

open Binary64 (nearest one one_units_pos Discerned)
open Template (Lookup)

/-- The relation of two integers that a comparison stands for. -/
def Comparison.relates : Comparison → Int → Int → Bool
  | .equal, m, n => m = n
  | .notEqual, m, n => m ≠ n
  | .greater, m, n => n < m
  | .greaterOrEqual, m, n => n ≤ m
  | .less, m, n => m < n
  | .lessOrEqual, m, n => m ≤ n
  | .contains, _, _ => false

/-- The relation of the floats is that of the integers, if their floats tell them apart. -/
theorem Comparison.relates_nearest (comparison : Comparison) {m n : Int} (h : Discerned m n) :
    comparison.relates (nearest m) (nearest n) = comparison.relates m n := by
  have hlt := h.lt_iff
  have heq := h.eq_iff
  cases comparison <;> simp only [relates, decide_eq_decide] <;> omega

section Words
variable {m n : Int}

theorem natAbs_of_isWord (h : Json.IsWord n) : n.natAbs < 2 ^ 64 := by
  obtain ⟨hlow, hhigh⟩ := h
  simp only [Literal.signedBound, Literal.word64, Nat.pow_eq] at hlow hhigh
  omega

/-- An integer counts as the float that is nearest to it. -/
theorem asNumber?_int (h : Json.IsWord n) :
    ∃ x, asNumber? (.num (.int n)) = some x ∧ x.units = nearest n * one :=
  Binary64.ofInt_units (natAbs_of_isWord h)

theorem looseEquals_int (hm : Json.IsWord m) (hn : Json.IsWord n) :
    looseEquals (.num (.int m)) (.num (.int n)) = decide (nearest m = nearest n) := by
  obtain ⟨x, hx, hxunits⟩ := asNumber?_int hm
  obtain ⟨y, hy, hyunits⟩ := asNumber?_int hn
  have hsame : (Json.num (.int m)).same (.num (.int n)) = decide (m = n) := rfl
  rw [looseEquals, hsame, hx, hy]
  by_cases heq : m = n
  · subst heq
    simp
  · simp only [heq, isNull, decide_false, Bool.or_self, Bool.false_eq_true, if_false]
    exact Binary64.sameValue_scaled one_units_pos hxunits hyunits

theorem compareValues_int {comparison : Comparison} (hm : Json.IsWord m) (hn : Json.IsWord n)
    (h : comparison ≠ .contains) :
    compareValues comparison (.num (.int m)) (.num (.int n)) = .ok (comparison.relates (nearest m) (nearest n)) := by
  obtain ⟨x, hx, hxunits⟩ := asNumber?_int hm
  obtain ⟨y, hy, hyunits⟩ := asNumber?_int hn
  have horder : order? (.num (.int m)) (.num (.int n)) =
      some (if nearest m < nearest n then .lt else if nearest m = nearest n then .eq else .gt) := by
    unfold order?
    simp only [hx, hy]
    simp only [Binary64.lt_scaled one_units_pos hxunits hyunits,
      Binary64.sameValue_scaled one_units_pos hxunits hyunits, decide_eq_true_eq]
  cases comparison with
  | contains => exact absurd rfl h
  | equal => rw [compareValues, looseEquals_int hm hn, Comparison.relates]
  | notEqual =>
    rw [compareValues, looseEquals_int hm hn, Comparison.relates]
    simp
  | _ =>
    simp only [compareValues, horder, Comparison.relates]
    rcases lt_trichotomy (nearest m) (nearest n) with hlt | heq | hgt
    · simp [hlt, hlt.le, hlt.not_ge, hlt.not_gt]
    · simp [heq]
    · simp [hgt, hgt.le, hgt.not_ge, hgt.not_gt, hgt.ne']

/-- An array of integers contains an integer if the float of one of them is that of the integer. -/
theorem contains?_ints {items : List Int} (hitems : ∀ i ∈ items, Json.IsWord i) (hn : Json.IsWord n) :
    contains? (.arr (items.map fun i => .num (.int i))) (.num (.int n)) =
      some (decide (∃ i ∈ items, nearest i = nearest n)) := by
  refine congrArg some (Bool.eq_iff_iff.mpr ?_)
  rw [List.any_map, List.any_eq_true, decide_eq_true_iff]
  refine exists_congr fun i => and_congr_right fun hi => ?_
  rw [Function.comp_apply, looseEquals_int (hitems i hi) hn, decide_eq_true_iff]

end Words

/-- A comparison of two integers of 64 bits says how the floats that are nearest to them lie to each other, and an array
of such integers contains one if an item has its float. That is what the integers themselves say if the floats tell
those apart that differ, as they do up to 53 bits and where the difference is above 2048. -/
theorem integers_compare_as_floats {lookup : Lookup} {a b : Int} {left right : Term} (ha : Json.IsWord a)
    (hb : Json.IsWord b) (hleft : left.operand lookup = .ok (.value (.num (.int a))))
    (hright : right.operand lookup = .ok (.value (.num (.int b)))) :
    (∀ sign s, sign ≠ .contains → Written .or (.compare sign left right) s →
      evalBool lookup (String.ofList s) = .ok (sign.comparison.relates (nearest a) (nearest b)) ∧
        (Discerned a b → evalBool lookup (String.ofList s) = .ok (sign.comparison.relates a b))) ∧
    (∀ (items : List Int) (list : Term) s, (∀ i ∈ items, Json.IsWord i) → list.Distinct →
      list.operand lookup = .ok (.value (.arr (items.map fun i => .num (.int i)))) →
      Written .or (.compare .contains list right) s →
      evalBool lookup (String.ofList s) = .ok (decide (∃ i ∈ items, nearest i = nearest b)) ∧
        ((∀ i ∈ items, Discerned i b) → evalBool lookup (String.ofList s) = .ok (decide (b ∈ items)))) ∧
    (a.natAbs ≤ 2 ^ 53 ∧ b.natAbs ≤ 2 ^ 53 ∨ 2048 < (a - b).natAbs → Discerned a b) := by
  have hbool {list : Term} {v : Json} {sign : Sign} {s : List Char}
      (hlist : list.operand lookup = .ok (.value v)) (readable : sign = .contains → list.Distinct)
      (written : Written .or (.compare sign list right) s) :
      evalBool lookup (String.ofList s) = compareValues sign.comparison v (.num (.int b)) := by
    rw [written.sound.evalBool, value_written written readable, Expression.truth, hlist, hright]
    rfl
  refine ⟨fun sign s hsign written => ?_, fun items list s hitems distinct hlist written => ?_, ?_⟩
  · have hne : sign.comparison ≠ .contains := by
      cases sign <;> simp_all [Sign.comparison]
    have hvalue := (hbool hleft (fun h => absurd h hsign) written).trans (compareValues_int ha hb hne)
    refine ⟨hvalue, fun discerned => ?_⟩
    rw [hvalue, Comparison.relates_nearest _ discerned]
  · have hvalue : evalBool lookup (String.ofList s) = .ok (decide (∃ i ∈ items, nearest i = nearest b)) := by
      rw [hbool hlist (fun _ => distinct) written, Sign.comparison, compareValues, contains?_ints hitems hb]
    refine ⟨hvalue, fun discerned => hvalue.trans (congrArg _ (decide_eq_decide.mpr ?_))⟩
    constructor
    · rintro ⟨i, hi, heq⟩
      rwa [← (discerned i hi).eq_iff.mp heq]
    · exact fun hmem => ⟨b, hmem, rfl⟩
  · rintro (⟨hshort, hshort'⟩ | far)
    · exact Binary64.discerned_of_short hshort hshort'
    · exact Binary64.discerned_of_far (natAbs_of_isWord ha) (natAbs_of_isWord hb) far

/-- Integers of more than 53 bits that are far apart are compared as they are. -/
theorem integers_beyond_floats_compare :
    let a : Int := 9223372036854775807
    let b : Int := 9223372036854771712
    let scope : Scope := ⟨[("a", .defined (.num (.int a))), ("b", .defined (.num (.int b)))], []⟩
    evalBool scope.lookup "\x7b\x7b a \x7d\x7d > \x7b\x7b b \x7d\x7d" = .ok true := by
  intro a b scope
  have ha : Json.IsWord a := ⟨by decide, by decide⟩
  have hb : Json.IsWord b := ⟨by decide, by decide⟩
  obtain ⟨hcompare, -, hfar⟩ := @integers_compare_as_floats scope.lookup a b (.placeholder ⟨['a'], rfl, by decide⟩)
    (.placeholder ⟨['b'], rfl, by decide⟩) ha hb rfl rfl
  exact (hcompare .greater _ (by decide) (Written.brief _ .or)).2 (hfar (Or.inr (by decide)))

/-- Two integers that differ have the same float, and so they are taken for equal. -/
theorem neighbours_taken_for_equal :
    let a : Int := 9007199254740993
    let b : Int := 9007199254740992
    let scope : Scope := ⟨[("a", .defined (.num (.int a))), ("b", .defined (.num (.int b)))], []⟩
    a ≠ b ∧ Json.IsWord a ∧ Json.IsWord b ∧
      evalBool scope.lookup "\x7b\x7b a \x7d\x7d == \x7b\x7b b \x7d\x7d" = .ok true := by
  refine ⟨by decide, ⟨by decide, by decide⟩, ⟨by decide, by decide⟩, ?_⟩
  decide +kernel

end StepTree.Condition
