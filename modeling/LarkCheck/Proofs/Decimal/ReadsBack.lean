import LarkCheck.Decimal.Double
import Mathlib.Algebra.Order.Field.Power
import Mathlib.Data.Rat.Cast.Order
import Mathlib.Tactic.Linarith
import Mathlib.Tactic.NormNum
import Mathlib.Tactic.Positivity
import Mathlib.Tactic.Ring

/-!
# Decimals that read back

The decimals that read back as a binary number are near to it: they lie between the
points halfway to its neighbours. No decimal is near to two binary numbers, because the
numbers with an even mantissa, and only they, own their ends. On the last of the grids
that are tried the step is smaller than half the gap above the number, so a near decimal
is always found.
-/

namespace LarkCheck.Decimal

def Scientific.value (d : Scientific) : ℚ :=
  d.digits * 10 ^ d.exponent

namespace Binary

variable {b b' : Binary} {grid : Int} {x y : ℚ}

/-- The number of quarters at the lower end. -/
def low (b : Binary) : Nat :=
  4 * b.mantissa - if b.closerBelow then 1 else 2

/-- The number of quarters at the upper end. -/
def high (b : Binary) : Nat :=
  4 * b.mantissa + 2

/-- Whether `x` lies between the points halfway to the neighbours. -/
def Near (b : Binary) (x : ℚ) : Prop :=
  if b.mantissa % 2 = 0 then
    b.low * 2 ^ (b.exponent - 2) ≤ x ∧ x ≤ b.high * 2 ^ (b.exponent - 2)
  else
    b.low * 2 ^ (b.exponent - 2) < x ∧ x < b.high * 2 ^ (b.exponent - 2)

theorem Near.low_le (h : b.Near x) : b.low * 2 ^ (b.exponent - 2) ≤ x := by
  unfold Near at h
  split at h
  · exact h.1
  · exact h.1.le

theorem Near.le_high (h : b.Near x) : x ≤ b.high * 2 ^ (b.exponent - 2) := by
  unfold Near at h
  split at h
  · exact h.2
  · exact h.2.le

theorem near_of_lt (hlow : b.low * 2 ^ (b.exponent - 2) < x)
    (hhigh : x < b.high * 2 ^ (b.exponent - 2)) : b.Near x := by
  unfold Near
  split
  · exact ⟨hlow.le, hhigh.le⟩
  · exact ⟨hlow, hhigh⟩

/-- The common unit of a number and a grid. -/
def scale (b : Binary) (grid : Int) : ℚ :=
  2 ^ (2 - b.exponent).toNat * 10 ^ (-grid).toNat

theorem scale_pos (b : Binary) (grid : Int) : 0 < b.scale grid := by
  unfold scale
  positivity

/-- The power of a number splits into one with its positive part and one with its negative part. -/
theorem pow_toNat {a : ℚ} (ha : a ≠ 0) (n : Int) : a ^ n.toNat = a ^ n * a ^ (-n).toNat := by
  rw [← zpow_natCast, ← zpow_natCast, ← zpow_add₀ ha]
  congr 1
  omega

theorem onGrid_eq (b : Binary) (grid : Int) (quarters : Nat) :
    (b.onGrid grid quarters : ℚ) = quarters * 2 ^ (b.exponent - 2) * b.scale grid := by
  have hpow := @pow_toNat 2 (by norm_num) (b.exponent - 2)
  rw [Int.neg_sub] at hpow
  simp only [onGrid, scale, Nat.pow_eq]
  push_cast
  rw [hpow]
  ring

theorem gridUnit_eq (b : Binary) (grid : Int) :
    (b.gridUnit grid : ℚ) = 10 ^ grid * b.scale grid := by
  have hpow := @pow_toNat 10 (by norm_num) grid
  simp only [gridUnit, scale, Nat.pow_eq]
  push_cast
  rw [hpow]
  ring

theorem onGrid_le_iff {quarters digits : Nat} : b.onGrid grid quarters ≤ digits * b.gridUnit grid ↔
    (quarters * 2 ^ (b.exponent - 2) : ℚ) ≤ digits * 10 ^ grid := by
  rw [← Nat.cast_le (α := ℚ), Nat.cast_mul, onGrid_eq, gridUnit_eq, ← mul_assoc,
    mul_le_mul_iff_left₀ (b.scale_pos grid)]

theorem le_onGrid_iff {quarters digits : Nat} : digits * b.gridUnit grid ≤ b.onGrid grid quarters ↔
    (digits * 10 ^ grid : ℚ) ≤ quarters * 2 ^ (b.exponent - 2) := by
  rw [← Nat.cast_le (α := ℚ), Nat.cast_mul, onGrid_eq, gridUnit_eq, ← mul_assoc,
    mul_le_mul_iff_left₀ (b.scale_pos grid)]

theorem readsBack_iff {digits : Nat} :
    b.readsBack grid digits = true ↔ b.Near (digits * 10 ^ grid) := by
  unfold readsBack Near
  dsimp only
  rw [← low, ← high]
  split
  · simp only [Bool.and_eq_true, decide_eq_true_eq, onGrid_le_iff, le_onGrid_iff]
  · simp only [Bool.and_eq_true, decide_eq_true_eq, ← Nat.not_le, onGrid_le_iff, le_onGrid_iff,
      not_le]

/-- The numbers that 64 bits can hold, apart from zero. A mantissa has 53 digits unless the exponent
is the least one, and only at the foot of a higher exponent the gap below is the smaller one. -/
structure Regular (b : Binary) : Prop where
  mantissa_pos : 0 < b.mantissa
  mantissa_lt : b.mantissa < 2 ^ 53
  exponent_ge : -1074 ≤ b.exponent
  exponent_le : b.exponent ≤ 971
  full : -1074 < b.exponent → 2 ^ 52 ≤ b.mantissa
  closerBelow_iff : b.closerBelow = true ↔ b.mantissa = 2 ^ 52 ∧ -1074 < b.exponent

/-- The first number is the smaller one. -/
def Precedes (b b' : Binary) : Prop :=
  b.exponent < b'.exponent ∨ b.exponent = b'.exponent ∧ b.mantissa < b'.mantissa

/-- The upper end of a number, in its own quarters, is not above the lower end of a greater number
of the same exponent, and the two meet only if the mantissas are neighbours. -/
theorem Regular.high_le_low (h' : b'.Regular) (hb : b.Regular)
    (hexponent : b.exponent = b'.exponent) (hlt : b.mantissa < b'.mantissa) :
    b.high ≤ b'.low ∧ (b.high = b'.low → b'.mantissa = b.mantissa + 1) := by
  have hcloser : b'.closerBelow = false := by
    rw [Bool.eq_false_iff, Ne, h'.closerBelow_iff]
    rintro ⟨hfoot, hexp⟩
    have hfull := hb.full (hexponent ▸ hexp)
    omega
  simp only [high, low, hcloser, Bool.false_eq_true, if_false]
  omega

/-- Below a number of a greater exponent the upper end is at most twice as many quarters, and the
two meet only if the mantissa is the greatest one. -/
theorem Regular.high_le_two_mul_low (h' : b'.Regular) (hb : b.Regular)
    (hlt : b.exponent < b'.exponent) :
    b.high ≤ 2 * b'.low ∧ (b.high = 2 * b'.low → b.mantissa = 2 ^ 53 - 1) := by
  have hfull := h'.full (Int.lt_of_le_of_lt hb.exponent_ge hlt)
  have hmantissa := hb.mantissa_lt
  have hcloser : b'.closerBelow = true → b'.mantissa = 2 ^ 52 :=
    fun h => (h'.closerBelow_iff.1 h).1
  simp only [high, low]
  cases hc : b'.closerBelow with
  | true =>
    have hfoot := hcloser hc
    simp only [if_pos]
    omega
  | false =>
    have hnot : b'.mantissa ≠ 2 ^ 52 := fun hfoot => by
      have hclose := h'.closerBelow_iff.2 ⟨hfoot, Int.lt_of_le_of_lt hb.exponent_ge hlt⟩
      rw [hc] at hclose
      cases hclose
    simp only [Bool.false_eq_true, if_false]
    omega

theorem Regular.ends_le (h : b.Regular) (h' : b'.Regular) (hlt : b.Precedes b') :
    (b.high * 2 ^ (b.exponent - 2) : ℚ) ≤ b'.low * 2 ^ (b'.exponent - 2) ∧
      ((b.high * 2 ^ (b.exponent - 2) : ℚ) = b'.low * 2 ^ (b'.exponent - 2) →
        ¬ (b.mantissa % 2 = 0 ∧ b'.mantissa % 2 = 0)) := by
  have hpos : (0 : ℚ) < 2 ^ (b.exponent - 2) := by positivity
  rcases hlt with hexponent | ⟨hexponent, hmantissa⟩
  · obtain ⟨hle, hmeet⟩ := h'.high_le_two_mul_low h hexponent
    -- one step up in the exponent doubles the quarters, any further step only helps
    have hdouble : (2 * 2 ^ (b.exponent - 2) : ℚ) ≤ 2 ^ (b'.exponent - 2) := by
      rw [← zpow_one_add₀ (by norm_num)]
      exact zpow_le_zpow_right₀ (by norm_num) (by omega)
    have hends : (b.high * 2 ^ (b.exponent - 2) : ℚ) ≤ b'.low * (2 * 2 ^ (b.exponent - 2)) := by
      rw [← mul_assoc, mul_comm (b'.low : ℚ) 2]
      exact mul_le_mul_of_nonneg_right (by exact_mod_cast hle) hpos.le
    have hstep : (b'.low * (2 * 2 ^ (b.exponent - 2)) : ℚ) ≤ b'.low * 2 ^ (b'.exponent - 2) :=
      mul_le_mul_of_nonneg_left hdouble (Nat.cast_nonneg _)
    refine ⟨hends.trans hstep, fun heq => ?_⟩
    have hsame : (b.high * 2 ^ (b.exponent - 2) : ℚ) = (2 * b'.low) * 2 ^ (b.exponent - 2) := by
      linarith
    have hhigh : b.high = 2 * b'.low := by
      exact_mod_cast mul_right_cancel₀ hpos.ne' hsame
    have hodd := hmeet hhigh
    omega
  · obtain ⟨hle, hmeet⟩ := h'.high_le_low h hexponent hmantissa
    rw [← hexponent]
    refine ⟨mul_le_mul_of_nonneg_right (by exact_mod_cast hle) hpos.le, fun heq => ?_⟩
    have hhigh : b.high = b'.low := by
      exact_mod_cast mul_right_cancel₀ hpos.ne' heq
    have hnext := hmeet hhigh
    omega

theorem Regular.near_lt (h : b.Regular) (h' : b'.Regular) (hlt : b.Precedes b') (hx : b.Near x)
    (hy : b'.Near y) : x < y := by
  obtain ⟨hends, hmeet⟩ := h.ends_le h' hlt
  refine lt_of_le_of_ne ((hx.le_high.trans hends).trans hy.low_le) fun hxy => ?_
  subst hxy
  have hhigh : x = b.high * 2 ^ (b.exponent - 2) :=
    le_antisymm hx.le_high (hends.trans hy.low_le)
  have hlow : x = b'.low * 2 ^ (b'.exponent - 2) :=
    le_antisymm (hx.le_high.trans hends) hy.low_le
  refine hmeet (hhigh.symm.trans hlow) ⟨?_, ?_⟩
  · by_contra hodd
    rw [Near, if_neg hodd, ← hhigh] at hx
    exact lt_irrefl _ hx.2
  · by_contra hodd
    rw [Near, if_neg hodd, ← hlow] at hy
    exact lt_irrefl _ hy.1

/-- A decimal is near to one number only. -/
theorem Regular.eq_of_near (h : b.Regular) (h' : b'.Regular) (hx : b.Near x) (hx' : b'.Near x) :
    b = b' := by
  have hexponent : b.exponent = b'.exponent := by
    rcases Int.lt_trichotomy b.exponent b'.exponent with hlt | heq | hlt
    · exact absurd (h.near_lt h' (.inl hlt) hx hx') (lt_irrefl x)
    · exact heq
    · exact absurd (h'.near_lt h (.inl hlt) hx' hx) (lt_irrefl x)
  have hmantissa : b.mantissa = b'.mantissa := by
    rcases Nat.lt_trichotomy b.mantissa b'.mantissa with hlt | heq | hlt
    · exact absurd (h.near_lt h' (.inr ⟨hexponent, hlt⟩) hx hx') (lt_irrefl x)
    · exact heq
    · exact absurd (h'.near_lt h (.inr ⟨hexponent.symm, hlt⟩) hx' hx) (lt_irrefl x)
  have hcloser : b.closerBelow = b'.closerBelow := by
    rw [Bool.eq_iff_iff, h.closerBelow_iff, h'.closerBelow_iff, hexponent, hmantissa]
  cases b
  cases b'
  simp only at hexponent hmantissa hcloser
  subst hexponent hmantissa hcloser
  rfl

/-- `1233 / 4096` is so close to the decimal logarithm of two that the floor makes up for it. -/
theorem ten_zpow_le (n : Int) (hn : -4096 ≤ n) : (10 : ℚ) ^ (n * 1233 / 4096) ≤ 2 ^ (n + 1) := by
  have hupper : (10 : ℚ) ^ (1233 : Int) ≤ 2 ^ (4096 : Int) := by
    have hnat : 10 ^ 1233 ≤ 2 ^ 4096 := by decide +kernel
    exact_mod_cast hnat
  have hlower : (2 : ℚ) ^ (4095 : Int) ≤ 10 ^ (1233 : Int) := by
    have hnat : 2 ^ 4095 ≤ 10 ^ 1233 := by decide +kernel
    exact_mod_cast hnat
  have hfloor : (10 : ℚ) ^ (n * 1233 / 4096 * 4096) ≤ 10 ^ (1233 * n) :=
    zpow_le_zpow_right₀ (by norm_num) (by omega)
  -- the 4096th powers of both sides have whole exponents
  have hpowers : (10 : ℚ) ^ (1233 * n) ≤ 2 ^ ((n + 1) * 4096) := by
    rw [zpow_mul]
    rcases Int.le_total 0 n with h | h
    · calc ((10 : ℚ) ^ (1233 : Int)) ^ n ≤ (2 ^ (4096 : Int)) ^ n :=
            zpow_le_zpow_left₀ h (by positivity) hupper
        _ = 2 ^ (4096 * n) := (zpow_mul _ _ _).symm
        _ ≤ 2 ^ ((n + 1) * 4096) := zpow_le_zpow_right₀ (by norm_num) (by omega)
    · calc ((10 : ℚ) ^ (1233 : Int)) ^ n = ((10 ^ (1233 : Int)) ^ (-n))⁻¹ := by
            rw [zpow_neg, inv_inv]
        _ ≤ ((2 ^ (4095 : Int)) ^ (-n))⁻¹ :=
            inv_anti₀ (by positivity) (zpow_le_zpow_left₀ (by omega) (by positivity) hlower)
        _ = 2 ^ (4095 * n) := by rw [zpow_neg, inv_inv, zpow_mul]
        _ ≤ 2 ^ ((n + 1) * 4096) := zpow_le_zpow_right₀ (by norm_num) (by omega)
  have hboth := hfloor.trans hpowers
  rw [zpow_mul, zpow_mul] at hboth
  exact (pow_le_pow_iff_left₀ (by positivity) (by positivity) (by decide : 4096 ≠ 0)).1
    (by exact_mod_cast hboth)

/-- The step of the last grid that is tried is smaller than half the gap above the number. -/
theorem Regular.step_lt (h : b.Regular) :
    (10 : ℚ) ^ (b.topGrid - 19) < 2 * 2 ^ (b.exponent - 2) := by
  have hlog : b.mantissa.log2 < 53 := (Nat.log2_lt h.mantissa_pos.ne').2 h.mantissa_lt
  have hexponent := h.exponent_ge
  have htop : b.topGrid - 19 ≤ (b.exponent + 53) * 1233 / 4096 + -18 := by
    unfold topGrid
    push_cast
    omega
  calc (10 : ℚ) ^ (b.topGrid - 19) ≤ 10 ^ ((b.exponent + 53) * 1233 / 4096 + -18) :=
        zpow_le_zpow_right₀ (by norm_num) htop
    _ = 10 ^ ((b.exponent + 53) * 1233 / 4096) * 10 ^ (-18 : Int) := zpow_add₀ (by norm_num) _ _
    _ ≤ 2 ^ (b.exponent + 53 + 1) * 10 ^ (-18 : Int) :=
        mul_le_mul_of_nonneg_right (ten_zpow_le _ (by omega)) (by positivity)
    _ < 2 ^ (b.exponent + 53 + 1) * 2 ^ (-55 : Int) :=
        mul_lt_mul_of_pos_left (by norm_num) (by positivity)
    _ = 2 * 2 ^ (b.exponent - 2) := by
        rw [← zpow_add₀ (by norm_num), ← zpow_one_add₀ (by norm_num)]
        congr 1
        omega

/-- On such a grid the first point above the number is near to it. -/
theorem Regular.near_above (h : b.Regular) (hstep : (10 : ℚ) ^ grid < 2 * 2 ^ (b.exponent - 2)) :
    b.Near ((b.onGrid grid (4 * b.mantissa) / b.gridUnit grid + 1 : Nat) * 10 ^ grid) := by
  have hpos : (0 : ℚ) < 2 ^ (b.exponent - 2) := by positivity
  have hunit : 0 < b.gridUnit grid := by
    have hcast : (0 : ℚ) < b.gridUnit grid := by
      rw [gridUnit_eq]
      exact mul_pos (by positivity) (b.scale_pos grid)
    exact_mod_cast hcast
  have hbelow := le_onGrid_iff.1 (Nat.div_mul_le_self (b.onGrid grid (4 * b.mantissa))
    (b.gridUnit grid))
  have habove := Nat.lt_mul_div_succ (b.onGrid grid (4 * b.mantissa)) hunit
  rw [Nat.mul_comm (b.gridUnit grid), ← Nat.not_le, le_onGrid_iff, not_le] at habove
  have hlow : b.low < 4 * b.mantissa := by
    have hmantissa := h.mantissa_pos
    unfold low
    split <;> omega
  refine near_of_lt (lt_trans ?_ habove) ?_
  · exact mul_lt_mul_of_pos_right (by exact_mod_cast hlow) hpos
  · simp only [high]
    push_cast at hbelow ⊢
    linarith

theorem near_of_nearest? {d : Scientific} (h : b.nearest? grid = some d) : b.Near d.value := by
  unfold nearest? at h
  dsimp only at h
  split at h
  · rename_i hbelow
    split at h
    · rename_i habove
      cases h
      exact readsBack_iff.1 (Bool.and_eq_true_iff.1 habove).1
    · cases h
      exact readsBack_iff.1 hbelow
  · split at h
    · rename_i habove
      cases h
      exact readsBack_iff.1 habove
    · cases h

/-- The shortest decimal of a number reads back as it. -/
theorem Regular.near_shortest (h : b.Regular) : b.Near b.shortest.value := by
  unfold shortest
  dsimp only
  cases hfound : ((List.range 20).map fun i : Nat => b.topGrid - i).findSome? b.nearest? with
  | some d =>
    obtain ⟨grid, -, hgrid⟩ := List.exists_of_findSome?_eq_some hfound
    exact near_of_nearest? hgrid
  | none =>
    have hlast : b.nearest? (b.topGrid - 19) = none :=
      List.findSome?_eq_none_iff.1 hfound _ (List.mem_map.2 ⟨19, by decide, rfl⟩)
    have habove := readsBack_iff.2 (h.near_above h.step_lt)
    simp only [nearest?, habove, if_true] at hlast
    split at hlast
    · split at hlast <;> cases hlast
    · cases hlast

end Binary

end LarkCheck.Decimal
