import Mathlib.Data.Nat.Log
import Mathlib.Tactic.Ring
import StepTree.Number.Binary64

/-! # The floats nearest to integers

A natural number of at most 53 bits is a float. A longer one is rounded to a multiple of the power of two that leaves it
53 bits, a tie to the even multiple; so a rounded number may have two nearest neighbours fewer, but it never passes
another. -/

namespace StepTree.Binary64

/-! ### Rounded quotients -/

section Quotients
variable {m n d : Nat}

theorem roundDiv_bounds (m d : Nat) : m / d ≤ roundDiv m d ∧ roundDiv m d ≤ m / d + 1 := by
  unfold roundDiv
  dsimp only
  split_ifs <;> omega

theorem roundDiv_one (m : Nat) : roundDiv m 1 = m := by
  simp [roundDiv, Nat.mod_one]

theorem roundDiv_mul (q : Nat) (hd : 0 < d) : roundDiv (q * d) d = q := by
  simp [roundDiv, Nat.mul_div_cancel q hd, hd]

/-- A quotient is rounded by at most one half. -/
theorem roundDiv_error (m : Nat) (hd : 0 < d) :
    2 * m ≤ 2 * (roundDiv m d * d) + d ∧ 2 * (roundDiv m d * d) ≤ 2 * m + d := by
  have hdiv : m / d * d + m % d = m := Nat.div_add_mod' m d
  have hrest : m % d < d := Nat.mod_lt m hd
  unfold roundDiv
  dsimp only
  split_ifs <;> simp only [Nat.add_one_mul] <;> omega

theorem roundDiv_mono (h : m ≤ n) (d : Nat) : roundDiv m d ≤ roundDiv n d := by
  rcases Nat.lt_or_eq_of_le (Nat.div_le_div_right (c := d) h) with hlt | heq
  · have hm := (roundDiv_bounds m d).2
    have hn := (roundDiv_bounds n d).1
    omega
  · have hrest : m % d ≤ n % d := by
      have hm := Nat.div_add_mod' m d
      have hn := Nat.div_add_mod' n d
      rw [heq] at hm
      omega
    unfold roundDiv
    dsimp only
    rw [heq]
    split_ifs <;> omega

end Quotients

/-! ### Natural numbers -/

/-- The distance between the floats around a natural number that is no float. -/
def spacing (m : Nat) : Nat := 2 ^ (m.log2 - 52)

/-- The float nearest to a natural number. -/
def nearestNat (m : Nat) : Nat := roundDiv m (spacing m) * spacing m

theorem spacing_pos (m : Nat) : 0 < spacing m := Nat.two_pow_pos _

theorem nearestNat_error (m : Nat) : 2 * m ≤ 2 * nearestNat m + spacing m ∧ 2 * nearestNat m ≤ 2 * m + spacing m :=
  roundDiv_error m (spacing_pos m)

theorem log2_le_of_lt {m k : Nat} (h : m < 2 ^ (k + 1)) : m.log2 ≤ k := by
  rcases Nat.eq_zero_or_pos m with rfl | hpos
  · exact Nat.zero_le k
  · exact Nat.lt_succ_iff.mp ((Nat.log2_lt (Nat.pos_iff_ne_zero.mp hpos)).mpr h)

/-- A number of at most 53 bits is a float. -/
theorem nearestNat_of_short {m : Nat} (h : m ≤ 2 ^ 53) : nearestNat m = m := by
  rcases Nat.lt_or_eq_of_le h with hlt | rfl
  · have hlog : m.log2 - 52 = 0 := Nat.sub_eq_zero_of_le (log2_le_of_lt hlt)
    rw [nearestNat, spacing, hlog, Nat.pow_zero, roundDiv_one, Nat.mul_one]
  · decide +kernel

/-- Rounding does not leave the powers of two between which a number lies. -/
theorem nearestNat_bounds {m : Nat} (h : m ≠ 0) : 2 ^ m.log2 ≤ nearestNat m ∧ nearestNat m ≤ 2 ^ (m.log2 + 1) := by
  have hle : 2 ^ m.log2 ≤ m := Nat.log2_self_le h
  have hlt : m < 2 ^ (m.log2 + 1) := Nat.lt_log2_self
  by_cases hshort : m.log2 ≤ 52
  · have hm : nearestNat m = m :=
      nearestNat_of_short (hlt.le.trans (Nat.pow_le_pow_right (by decide) (by omega)))
    rw [hm]
    exact ⟨hle, hlt.le⟩
  · -- Both powers of two are multiples of the spacing, so they are rounded to themselves.
    have hpower (k : Nat) (hk : m.log2 ≤ k) : 2 ^ k = 2 ^ (k - (m.log2 - 52)) * spacing m := by
      rw [spacing, ← Nat.pow_add]
      congr 1
      omega
    have hround (k : Nat) (hk : m.log2 ≤ k) : roundDiv (2 ^ k) (spacing m) * spacing m = 2 ^ k := by
      rw [hpower k hk, roundDiv_mul _ (spacing_pos m)]
    have hlow := Nat.mul_le_mul_right (spacing m) (roundDiv_mono hle (spacing m))
    have hhigh := Nat.mul_le_mul_right (spacing m) (roundDiv_mono hlt.le (spacing m))
    rw [hround _ le_rfl] at hlow
    rw [hround _ (Nat.le_succ _)] at hhigh
    exact ⟨hlow, hhigh⟩

theorem nearestNat_mono {m n : Nat} (h : m ≤ n) : nearestNat m ≤ nearestNat n := by
  rcases Nat.eq_zero_or_pos m with rfl | hpos
  · exact Nat.zero_le _
  · have hm : m ≠ 0 := by omega
    have hn : n ≠ 0 := by omega
    have hlog : m.log2 ≤ n.log2 := (Nat.le_log2 hn).mpr ((Nat.log2_self_le hm).trans h)
    rcases Nat.lt_or_eq_of_le hlog with hlt | heq
    · calc nearestNat m ≤ 2 ^ (m.log2 + 1) := (nearestNat_bounds hm).2
        _ ≤ 2 ^ n.log2 := Nat.pow_le_pow_right (by decide) hlt
        _ ≤ nearestNat n := (nearestNat_bounds hn).1
    · have hspacing : spacing m = spacing n := by rw [spacing, spacing, heq]
      rw [nearestNat, nearestNat, hspacing]
      exact Nat.mul_le_mul_right _ (roundDiv_mono h _)

/-! ### Integers -/

/-- The float nearest to an integer. -/
def nearest (n : Int) : Int := n.sign * nearestNat n.natAbs

theorem nearest_ofNat (m : Nat) : nearest m = nearestNat m := by
  rcases Nat.eq_zero_or_pos m with rfl | hpos
  · rfl
  · rw [nearest, Int.sign_natCast_of_ne_zero hpos.ne', Int.one_mul, Int.natAbs_natCast]

theorem nearest_neg (n : Int) : nearest (-n) = -nearest n := by
  rw [nearest, nearest, Int.sign_neg, Int.natAbs_neg, Int.neg_mul]

theorem nearest_of_short {n : Int} (h : n.natAbs ≤ 2 ^ 53) : nearest n = n := by
  rw [nearest, nearestNat_of_short h, Int.sign_mul_natAbs]

theorem nearest_mono {m n : Int} (h : m ≤ n) : nearest m ≤ nearest n := by
  have hnonneg (k : Nat) : 0 ≤ nearest k := by
    rw [nearest_ofNat]
    exact Int.natCast_nonneg _
  have hnat {j k : Nat} (hjk : j ≤ k) : nearest j ≤ nearest k := by
    rw [nearest_ofNat, nearest_ofNat]
    exact Int.ofNat_le.mpr (nearestNat_mono hjk)
  obtain ⟨j, rfl | rfl⟩ := m.eq_nat_or_neg <;> obtain ⟨k, rfl | rfl⟩ := n.eq_nat_or_neg
  · exact hnat (by omega)
  · obtain ⟨rfl, rfl⟩ : j = 0 ∧ k = 0 := by omega
    exact le_rfl
  · rw [nearest_neg]
    have hj := hnonneg j
    have hk := hnonneg k
    omega
  · rw [nearest_neg, nearest_neg]
    have hkj : nearest k ≤ nearest j := hnat (by omega)
    omega

/-- An integer of 64 bits is rounded by at most half the distance between the floats there. -/
theorem nearest_error {n : Int} (h : n.natAbs < 2 ^ 64) : (nearest n - n).natAbs ≤ 1024 := by
  have hspacing : spacing n.natAbs ≤ 2048 := by
    have hlog : n.natAbs.log2 ≤ 63 := log2_le_of_lt h
    calc spacing n.natAbs ≤ 2 ^ 11 := Nat.pow_le_pow_right (by decide) (by omega)
      _ = 2048 := rfl
  obtain ⟨hlow, hhigh⟩ := nearestNat_error n.natAbs
  obtain ⟨k, rfl | rfl⟩ := n.eq_nat_or_neg
  · rw [nearest_ofNat]
    simp only [Int.natAbs_natCast] at *
    omega
  · rw [nearest_neg, nearest_ofNat]
    simp only [Int.natAbs_neg, Int.natAbs_natCast] at *
    omega

/-- Two integers are equal, or have different floats. -/
def Discerned (m n : Int) : Prop := m = n ∨ nearest m ≠ nearest n

theorem discerned_of_short {m n : Int} (hm : m.natAbs ≤ 2 ^ 53) (hn : n.natAbs ≤ 2 ^ 53) : Discerned m n := by
  rw [Discerned, nearest_of_short hm, nearest_of_short hn]
  exact Decidable.em _

theorem discerned_of_far {m n : Int} (hm : m.natAbs < 2 ^ 64) (hn : n.natAbs < 2 ^ 64)
    (far : 2048 < (m - n).natAbs) : Discerned m n := by
  have hm := nearest_error hm
  have hn := nearest_error hn
  right
  omega

/-- Where their floats differ, two integers are in the order of their floats. -/
theorem Discerned.lt_iff {m n : Int} (h : Discerned m n) : nearest m < nearest n ↔ m < n := by
  rcases h with rfl | hne
  · simp
  · refine ⟨fun hlt => ?_, fun hlt => lt_of_le_of_ne (nearest_mono hlt.le) hne⟩
    by_contra hle
    have hmono := nearest_mono (not_lt.mp hle)
    omega

theorem Discerned.eq_iff {m n : Int} (h : Discerned m n) : nearest m = nearest n ↔ m = n := by
  rcases h with rfl | hne
  · simp
  · exact iff_of_false hne fun heq => hne (congrArg nearest heq)

/-! ### The float of an integer -/

/-- The exponent of the float of a natural number is the one at which it has 53 bits. -/
theorem scaleOf_one {m : Nat} (h : m ≠ 0) : scaleOf m 1 = m.log2 - 52 := by
  have hle : 2 ^ m.log2 ≤ m := Nat.log2_self_le h
  have hquotient : 2 ^ 53 ≤ m * 2 ^ (-((m.log2 : Int) - 53)).toNat / 2 ^ ((m.log2 : Int) - 53).toNat := by
    rw [Nat.le_div_iff_mul_le (Nat.two_pow_pos _)]
    calc 2 ^ 53 * 2 ^ ((m.log2 : Int) - 53).toNat = 2 ^ m.log2 * 2 ^ (-((m.log2 : Int) - 53)).toNat := by
          rw [← Nat.pow_add, ← Nat.pow_add]
          congr 1
          omega
      _ ≤ m * 2 ^ (-((m.log2 : Int) - 53)).toNat := Nat.mul_le_mul_right _ hle
  have hone : (Nat.log2 1 : Int) = 0 := rfl
  unfold scaleOf
  simp only [Nat.pow_eq, Nat.one_mul]
  rw [hone, Int.sub_zero, if_neg (Nat.not_lt.mpr hquotient)]
  omega

theorem ofParts?_units {negative : Bool} {significand : Nat} {e : Int} (small : significand < 2 ^ 53)
    (normal : 2 ^ 52 ≤ significand) (least : -1074 ≤ e) (greatest : e ≤ 971) :
    ∃ x, ofParts? negative significand e = some x ∧
      x.units = (if negative then -1 else 1) * ((significand * 2 ^ (e + 1074).toNat : Nat) : Int) := by
  refine ⟨⟨negative, significand, e, small, least, greatest, Or.inl normal⟩, dif_pos _, ?_⟩
  cases negative
  · simp [units]
  · simp [units]

/-- The significand that a natural number is rounded to, before it is cut to 53 bits. -/
def significandOf (m : Nat) : Nat := roundDiv (m * 2 ^ (52 - m.log2)) (spacing m)

theorem significandOf_mul (m : Nat) {k l : Nat} (hl : l = 52 + k) :
    significandOf m * 2 ^ (m.log2 + k) = nearestNat m * Nat.pow 2 l := by
  rw [hl, Nat.pow_eq]
  by_cases hshort : m.log2 ≤ 52
  · have hspacing : spacing m = 1 := by rw [spacing, Nat.sub_eq_zero_of_le hshort, Nat.pow_zero]
    have hexponent : 52 - m.log2 + (m.log2 + k) = 52 + k := by omega
    rw [significandOf, nearestNat, hspacing, roundDiv_one, roundDiv_one, Nat.mul_one, Nat.mul_assoc, ← Nat.pow_add,
      hexponent]
  · have hlong : 52 - m.log2 = 0 := by omega
    have hexponent : m.log2 - 52 + (52 + k) = m.log2 + k := by omega
    rw [significandOf, nearestNat, hlong, Nat.pow_zero, Nat.mul_one, Nat.mul_assoc, spacing, ← Nat.pow_add, hexponent]

theorem significandOf_units (m : Nat) : ((significandOf m * 2 ^ (m.log2 + 1022) : Nat) : Int) = nearestNat m * one := by
  delta one
  generalize hl : 1074 = l
  rw [significandOf_mul m hl.symm, Int.natCast_mul]

theorem one_units_pos : 0 < one := by
  delta one
  generalize 1074 = k
  exact Int.natCast_pos.mpr (Nat.two_pow_pos k)

theorem significandOf_bounds {m : Nat} (h : m ≠ 0) : 2 ^ 52 ≤ significandOf m ∧ significandOf m ≤ 2 ^ 53 := by
  have hvalue : significandOf m * 2 ^ m.log2 = nearestNat m * 2 ^ 52 := @significandOf_mul m 0 52 rfl
  obtain ⟨hlow, hhigh⟩ := nearestNat_bounds h
  have hpower : 0 < 2 ^ m.log2 := Nat.two_pow_pos _
  refine ⟨Nat.le_of_mul_le_mul_right ?_ hpower, Nat.le_of_mul_le_mul_right ?_ hpower⟩
  · calc 2 ^ 52 * 2 ^ m.log2 = 2 ^ m.log2 * 2 ^ 52 := Nat.mul_comm _ _
      _ ≤ nearestNat m * 2 ^ 52 := Nat.mul_le_mul_right _ hlow
      _ = _ := hvalue.symm
  · calc significandOf m * 2 ^ m.log2 = nearestNat m * 2 ^ 52 := hvalue
      _ ≤ 2 ^ (m.log2 + 1) * 2 ^ 52 := Nat.mul_le_mul_right _ hhigh
      _ = 2 ^ 53 * 2 ^ m.log2 := by ring

/-- A natural number that is not far beyond 64 bits has the float with the significand that it is rounded to. -/
theorem ofRatio_one (negative : Bool) {m : Nat} (h : m ≠ 0) (bounded : m.log2 ≤ 64) :
    ∃ x, ofRatio negative m 1 = some x ∧
      x.units = (if negative then -1 else 1) * ((significandOf m * 2 ^ (m.log2 + 1022) : Nat) : Int) := by
  obtain ⟨hlow, hhigh⟩ := significandOf_bounds h
  have hsignificand : roundDiv (m * 2 ^ (-((m.log2 : Int) - 52)).toNat) (2 ^ ((m.log2 : Int) - 52).toNat) =
      significandOf m := by
    have hdown : (-((m.log2 : Int) - 52)).toNat = 52 - m.log2 := by omega
    have hup : ((m.log2 : Int) - 52).toNat = m.log2 - 52 := by omega
    rw [hdown, hup]
    rfl
  unfold ofRatio
  dsimp only
  rw [if_neg h, scaleOf_one h]
  simp only [Nat.pow_eq, Nat.one_mul]
  rw [hsignificand]
  by_cases hfull : significandOf m = 2 ^ 53
  · -- The significand is rounded up to a power of two, so the exponent grows by one.
    obtain ⟨x, hx, hunits⟩ := @ofParts?_units negative (2 ^ 52) ((m.log2 : Int) - 52 + 1)
      (by decide) le_rfl (by omega) (by omega)
    have hexponent : ((m.log2 : Int) - 52 + 1 + 1074).toNat = m.log2 + 1022 + 1 := by omega
    rw [if_pos hfull]
    refine ⟨x, hx, ?_⟩
    rw [hunits, hfull, hexponent, Nat.pow_succ 2 (m.log2 + 1022), Nat.mul_comm _ 2, ← Nat.mul_assoc,
      ← Nat.pow_succ]
  · obtain ⟨x, hx, hunits⟩ := @ofParts?_units negative (significandOf m) ((m.log2 : Int) - 52)
      (Nat.lt_of_le_of_ne hhigh hfull) hlow (by omega) (by omega)
    have hexponent : ((m.log2 : Int) - 52 + 1074).toNat = m.log2 + 1022 := by omega
    rw [if_neg hfull]
    refine ⟨x, hx, ?_⟩
    rw [hunits, hexponent]

/-- An integer of 64 bits has the float that is nearest to it. -/
theorem ofInt_units {n : Int} (h : n.natAbs < 2 ^ 64) : ∃ x, ofInt n = some x ∧ x.units = nearest n * one := by
  by_cases hzero : n = 0
  · subst hzero
    exact ⟨zero false, rfl, by simp [units, zero, nearest]⟩
  · have hlog : n.natAbs.log2 ≤ 64 := (log2_le_of_lt h).trans (by decide)
    obtain ⟨x, hx, hunits⟩ := ofRatio_one (n < 0) (Int.natAbs_ne_zero.mpr hzero) hlog
    have hsign : n.sign = if decide (n < 0) then -1 else 1 := by
      rcases Int.lt_or_gt_of_ne hzero with hneg | hpos
      · rw [if_pos (decide_eq_true hneg), Int.sign_eq_neg_one_of_neg hneg]
      · rw [if_neg (by simpa using hpos.le), Int.sign_eq_one_of_pos hpos]
    refine ⟨x, hx, ?_⟩
    rw [hunits, nearest, hsign, Int.mul_assoc, significandOf_units]

section Scaled
variable {x y : Binary64} {k l unit : Int} (hunit : 0 < unit) (hx : x.units = k * unit) (hy : y.units = l * unit)
include hunit hx hy

/-- Floats that are multiples of one unit are compared by the factors. -/
theorem sameValue_scaled : x.sameValue y = decide (k = l) := by
  rw [sameValue, hx, hy]
  exact decide_eq_decide.mpr ⟨Int.eq_of_mul_eq_mul_right hunit.ne', congrArg (· * unit)⟩

theorem lt_scaled : x.lt y = decide (k < l) := by
  rw [lt, hx, hy]
  exact decide_eq_decide.mpr ⟨fun h => Int.lt_of_mul_lt_mul_right h hunit.le,
    fun h => Int.mul_lt_mul_of_pos_right h hunit⟩

end Scaled

end StepTree.Binary64
