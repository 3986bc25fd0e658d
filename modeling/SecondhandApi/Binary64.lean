import Mathlib.Algebra.Order.Field.Power
import Mathlib.Data.Int.Log
import Mathlib.Data.Nat.Factorization.Basic
import Mathlib.Data.Rat.Floor
import Mathlib.Tactic.Linarith
import Mathlib.Tactic.NormNum
import Mathlib.Tactic.Positivity
import Mathlib.Tactic.Ring

/-! Numbers of 64 bits with a floating point, as exact rationals and a rounding to them. The
two zeros are one. -/
namespace Binary64

def roundHalfEven (q : Rat) : Int :=
  if q - q.floor < 1 / 2 then q.floor
  else if 1 / 2 < q - q.floor then q.floor + 1
  else if q.floor % 2 = 0 then q.floor else q.floor + 1

/-- The exponent of the last place of a significand of 53 bits, or of the smallest number. -/
def lastPlace (q : Rat) : Int := max (Int.log 2 |q| - 52) (-1074)

/-- What `q` is rounded to when the exponent has no upper bound. -/
def nearest (q : Rat) : Rat := roundHalfEven (q / 2 ^ lastPlace q) * 2 ^ lastPlace q

theorem unit_pos (q : Rat) : (0 : Rat) < 2 ^ lastPlace q := zpow_pos (by norm_num) _

theorem roundHalfEven_int (n : Int) : roundHalfEven n = n := by
  have whole : (n : Rat).floor = n := Rat.floor_intCast n
  rw [roundHalfEven, whole, sub_self, if_pos (by norm_num)]

theorem abs_roundHalfEven_sub (q : Rat) : |(roundHalfEven q : Rat) - q| ≤ 1 / 2 := by
  have low : (q.floor : Rat) ≤ q := Rat.floor_le q
  have high : q < q.floor + 1 := by exact_mod_cast Rat.lt_floor_add_one q
  unfold roundHalfEven
  split_ifs with below above even
  all_goals
    rw [abs_le]
    push_cast
    constructor <;> linarith

theorem roundHalfEven_nonneg {q : Rat} (h : 0 ≤ q) : 0 ≤ roundHalfEven q := by
  have floor : 0 ≤ q.floor := Rat.le_floor_iff.mpr (by exact_mod_cast h)
  unfold roundHalfEven
  split_ifs <;> omega

theorem roundHalfEven_neg (q : Rat) : roundHalfEven (-q) = -roundHalfEven q := by
  by_cases whole : (q.floor : Rat) = q
  · rw [← whole, roundHalfEven_int, ← Int.cast_neg, roundHalfEven_int]
  · have low : (q.floor : Rat) < q := lt_of_le_of_ne (Rat.floor_le q) whole
    have high : q < q.floor + 1 := by exact_mod_cast Rat.lt_floor_add_one q
    have floor : (-q).floor = -q.floor - 1 := by
      refine le_antisymm ?_ (Rat.le_floor_iff.mpr ?_)
      · have below : (-q).floor < -q.floor := Rat.floor_lt_iff.mpr (by push_cast; linarith)
        omega
      · push_cast
        linarith
    unfold roundHalfEven
    rw [floor]
    push_cast
    split_ifs <;> first | omega | (exfalso; linarith)

theorem nearest_neg (q : Rat) : nearest (-q) = -nearest q := by
  have place : lastPlace (-q) = lastPlace q := by rw [lastPlace, lastPlace, abs_neg]
  rw [nearest, nearest, place, neg_div, roundHalfEven_neg]
  push_cast
  ring

theorem nearest_nonneg {q : Rat} (h : 0 ≤ q) : 0 ≤ nearest q := by
  have rounded := roundHalfEven_nonneg (div_nonneg h (unit_pos q).le)
  exact mul_nonneg (by exact_mod_cast rounded) (unit_pos q).le

theorem abs_nearest_sub (q : Rat) : |nearest q - q| ≤ 2 ^ lastPlace q / 2 := by
  have unit := unit_pos q
  have error := abs_roundHalfEven_sub (q / 2 ^ lastPlace q)
  have scaled : nearest q - q =
      (roundHalfEven (q / 2 ^ lastPlace q) - q / 2 ^ lastPlace q) * 2 ^ lastPlace q := by
    rw [nearest, sub_mul, div_mul_cancel₀ _ unit.ne']
  rw [scaled, abs_mul, abs_of_pos unit]
  nlinarith

theorem nearest_of_units {q : Rat} {k : Int} (h : q = k * 2 ^ lastPlace q) : nearest q = q := by
  have units : q / 2 ^ lastPlace q = k := by
    rw [div_eq_iff (unit_pos q).ne']
    exact h
  rw [nearest, units, roundHalfEven_int]
  exact h.symm

/-- A number with 53 bits of significand is not changed. -/
theorem nearest_exact {m e : Int} (bits : |m| < 2 ^ 53) (exponent : -1074 ≤ e) :
    nearest (m * 2 ^ e) = m * 2 ^ e := by
  rcases eq_or_ne m 0 with rfl | nonzero
  · exact nearest_of_units (k := 0) (by simp)
  have scale : (0 : Rat) < 2 ^ e := zpow_pos (by norm_num) e
  have size : |(m : Rat) * 2 ^ e| < 2 ^ (53 + e) := by
    rw [abs_mul, abs_of_pos scale, zpow_add₀ (by norm_num)]
    refine mul_lt_mul_of_pos_right ?_ scale
    exact_mod_cast bits
  have positive : 0 < |(m : Rat) * 2 ^ e| :=
    abs_pos.mpr (mul_ne_zero (by exact_mod_cast nonzero) scale.ne')
  have log : Int.log 2 |(m : Rat) * 2 ^ e| < 53 + e :=
    (Int.lt_zpow_iff_log_lt (by norm_num) positive).mp size
  have place : lastPlace (m * 2 ^ e) ≤ e := by
    unfold lastPlace
    omega
  obtain ⟨d, apart⟩ := Int.eq_ofNat_of_zero_le (sub_nonneg.mpr place)
  refine nearest_of_units (k := m * 2 ^ d) ?_
  have split : e = d + lastPlace (m * 2 ^ e) := by omega
  push_cast
  rw [mul_assoc, ← zpow_natCast (2 : Rat) d, ← zpow_add₀ (by norm_num), ← split]

theorem nearest_int {n : Int} (bits : |n| < 2 ^ 53) : nearest n = n := by
  have exact := nearest_exact (e := 0) bits (by norm_num)
  simpa using exact

theorem lastPlace_nonpos {q : Rat} (small : |q| < 2 ^ 53) : lastPlace q ≤ 0 := by
  rcases eq_or_ne q 0 with rfl | nonzero
  · simp [lastPlace]
  · have log : Int.log 2 |q| < 53 :=
      (Int.lt_zpow_iff_log_lt (by norm_num) (abs_pos.mpr nonzero)).mp (by exact_mod_cast small)
    unfold lastPlace
    omega

/-! Rounding does not go past an integer. -/

theorem le_roundHalfEven {m : Int} {q : Rat} (h : (m : Rat) ≤ q) : m ≤ roundHalfEven q := by
  have floor : m ≤ q.floor := Rat.le_floor_iff.mpr h
  unfold roundHalfEven
  split_ifs <;> omega

/-- In the range of exact integers an integer is a multiple of the last place. -/
theorem int_units {q : Rat} (small : |q| < 2 ^ 53) (n : Int) :
    ∃ m : Int, (n : Rat) = m * 2 ^ lastPlace q := by
  have place := lastPlace_nonpos small
  refine ⟨n * 2 ^ (-lastPlace q).toNat, ?_⟩
  have power : (2 : Rat) ^ (-lastPlace q).toNat * 2 ^ lastPlace q = 1 := by
    rw [← zpow_natCast, ← zpow_add₀ (by norm_num), Int.toNat_of_nonneg (by omega)]
    simp
  push_cast
  rw [mul_assoc, power, mul_one]

theorem le_nearest {q : Rat} (small : |q| < 2 ^ 53) {n : Int} (h : (n : Rat) ≤ q) :
    (n : Rat) ≤ nearest q := by
  obtain ⟨m, units⟩ := int_units small n
  rw [units] at h ⊢
  rw [nearest]
  have rounded : m ≤ roundHalfEven (q / 2 ^ lastPlace q) :=
    le_roundHalfEven ((le_div_iff₀ (unit_pos q)).mpr h)
  exact mul_le_mul_of_nonneg_right (by exact_mod_cast rounded) (unit_pos q).le

theorem nearest_le {q : Rat} (small : |q| < 2 ^ 53) {n : Int} (h : q ≤ n) :
    nearest q ≤ n := by
  have negative : ((-n : Int) : Rat) ≤ nearest (-q) :=
    le_nearest (by rwa [abs_neg]) (by push_cast; linarith)
  rw [nearest_neg] at negative
  push_cast at negative
  linarith

/-- The error of a number that is not too small for all its digits. -/
theorem abs_nearest_sub_le {q : Rat} (normal : (2 : Rat) ^ (-1022 : Int) ≤ |q|) :
    |nearest q - q| ≤ |q| / 2 ^ 53 := by
  have nonzero : 0 < |q| := lt_of_lt_of_le (by positivity) normal
  have log : -1022 ≤ Int.log 2 |q| := (Int.zpow_le_iff_le_log (by norm_num) nonzero).mp (by exact_mod_cast normal)
  have place : lastPlace q = Int.log 2 |q| - 52 := by
    rw [lastPlace]
    omega
  have power : (2 : Rat) ^ Int.log 2 |q| ≤ |q| := by
    exact_mod_cast Int.zpow_log_le_self (by norm_num) nonzero
  refine (abs_nearest_sub q).trans ?_
  rw [place, zpow_sub₀ (by norm_num), div_div, div_le_div_iff₀ (by positivity) (by positivity)]
  norm_num
  linarith

/-- Rounding a small number moves it by half of its last place at most, so by less than one. -/
theorem abs_nearest_small {q : Rat} (small : |q| < 2 ^ 53) : |nearest q| < 2 ^ 54 := by
  have place := lastPlace_nonpos small
  have unit : (2 : Rat) ^ lastPlace q ≤ 1 := zpow_le_one_of_nonpos₀ (by norm_num) place
  have error := abs_nearest_sub q
  have split : |nearest q| ≤ |nearest q - q| + |q| := by
    simpa using abs_add_le (nearest q - q) q
  have room : (2 : Rat) ^ 54 = 2 ^ 53 + 2 ^ 53 := by norm_num
  have one : (1 : Rat) < 2 ^ 53 := by norm_num
  linarith

/-- A number of 64 bits below one stays away from it. -/
theorem le_of_lt_one {r : Rat} (double : nearest r = r) (nonneg : 0 ≤ r) (below : r < 1) :
    r ≤ 1 - 1 / 2 ^ 53 := by
  rcases eq_or_lt_of_le nonneg with zero | positive
  · rw [← zero]
    norm_num
  by_cases half : r < 1 / 2
  · exact half.le.trans (by norm_num)
  have log : Int.log 2 |r| = -1 := by
    rw [abs_of_pos positive]
    have low : -1 ≤ Int.log 2 r :=
      (Int.zpow_le_iff_le_log (by norm_num) positive).mp (by norm_num; linarith)
    have high : Int.log 2 r < 0 :=
      (Int.lt_zpow_iff_log_lt (by norm_num) positive).mp (by norm_num; linarith)
    omega
  have place : lastPlace r = -53 := by
    rw [lastPlace, log]
    norm_num
  have units : r = roundHalfEven (r / 2 ^ lastPlace r) * 2 ^ (-53 : Int) := by
    rw [← place]
    exact double.symm
  generalize roundHalfEven (r / 2 ^ lastPlace r) = k at units
  have scale : (2 : Rat) ^ (-53 : Int) = 1 / 2 ^ 53 := by norm_num
  rw [scale] at units
  have few : (k : Rat) < 2 ^ 53 := by
    have := below
    rw [units] at this
    linarith
  have whole : k ≤ 2 ^ 53 - 1 := by
    have : k < 2 ^ 53 := by exact_mod_cast few
    omega
  have cast : (k : Rat) ≤ 2 ^ 53 - 1 := by exact_mod_cast whole
  rw [units]
  linarith

/-! The integers among the numbers. -/

/-- An integer with 53 bits of significand, below the largest exponent. -/
def Holds (n : Nat) : Prop := (n : Rat) < 2 ^ 1024 ∧ ∃ k e : Nat, k < 2 ^ 53 ∧ n = k * 2 ^ e

theorem holds_small {n : Nat} (small : n < 2 ^ 53) : Holds n := by
  have cast : (n : Rat) < 2 ^ 53 := by exact_mod_cast small
  exact ⟨cast.trans (pow_lt_pow_right₀ (by norm_num) (by norm_num)), n, 0, small,
    (Nat.mul_one n).symm⟩

theorem nearest_holds {n : Nat} (h : Holds n) : nearest n = n := by
  obtain ⟨_, k, e, bits, rfl⟩ := h
  have few : |(k : Int)| < 2 ^ 53 := by
    rw [Nat.abs_cast]
    exact_mod_cast bits
  have exact := nearest_exact (e := e) few (by omega)
  push_cast at exact ⊢
  exact_mod_cast exact

theorem roundHalfEven_le {m : Int} {q : Rat} (h : q ≤ m) : roundHalfEven q ≤ m := by
  have negative := le_roundHalfEven (m := -m) (q := -q) (by push_cast; linarith)
  rw [roundHalfEven_neg] at negative
  omega

/-- What was rounded has 53 bits of significand, or is the next power of two. -/
theorem abs_significand_le (q : Rat) : |roundHalfEven (q / 2 ^ lastPlace q)| ≤ 2 ^ 53 := by
  have unit := unit_pos q
  have below : |q| ≤ 2 ^ 53 * 2 ^ lastPlace q := by
    rw [← zpow_natCast (2 : Rat) 53, ← zpow_add₀ (by norm_num)]
    have power : |q| < 2 ^ (Int.log 2 |q| + 1) := by
      exact_mod_cast Int.lt_zpow_succ_log_self (Nat.lt_succ_self 1) |q|
    refine power.le.trans (zpow_le_zpow_right₀ (by norm_num) ?_)
    rw [lastPlace]
    push_cast
    omega
  have scaled : |q / 2 ^ lastPlace q| ≤ 2 ^ 53 := by
    rw [abs_div, abs_of_pos unit, div_le_iff₀ unit]
    exact below
  obtain ⟨low, high⟩ := abs_le.mp scaled
  exact abs_le.mpr ⟨le_roundHalfEven (by exact_mod_cast low), roundHalfEven_le (by exact_mod_cast high)⟩

theorem bits_nearest {q : Rat} {n : Nat} (rounded : nearest q = n) :
    ∃ k e : Nat, k < 2 ^ 53 ∧ n = k * 2 ^ e := by
  rcases Nat.lt_or_ge n (2 ^ 53) with small | large
  · exact (holds_small small).2
  have bits := abs_significand_le q
  rw [nearest] at rounded
  generalize roundHalfEven (q / 2 ^ lastPlace q) = r at bits rounded
  have unit := unit_pos q
  have positive : 0 < r := by
    have : (0 : Rat) < r * 2 ^ lastPlace q := by
      rw [rounded]
      exact_mod_cast (Nat.two_pow_pos 53).trans_le large
    exact_mod_cast pos_of_mul_pos_left this unit.le
  have top : (r : Rat) ≤ 2 ^ 53 := by exact_mod_cast (le_abs_self r).trans bits
  have place : 0 ≤ lastPlace q := by
    by_contra negative
    have half : (2 : Rat) ^ lastPlace q ≤ 2 ^ (-1 : Int) :=
      zpow_le_zpow_right₀ (by norm_num) (by omega)
    have atLeast : (2 : Rat) ^ 53 ≤ n := by exact_mod_cast large
    have one : (2 : Rat) ^ (-1 : Int) = 1 / 2 := by norm_num
    rw [one] at half
    nlinarith
  obtain ⟨d, power⟩ := Int.eq_ofNat_of_zero_le place
  obtain ⟨k, rfl⟩ := Int.eq_ofNat_of_zero_le positive.le
  rw [power] at rounded
  have product : n = k * 2 ^ d := by exact_mod_cast rounded.symm
  have most : k ≤ 2 ^ 53 := by exact_mod_cast top
  rcases Nat.lt_or_eq_of_le most with few | full
  · exact ⟨k, d, few, product⟩
  · refine ⟨2 ^ 52, d + 1, by norm_num, ?_⟩
    rw [product, full, pow_succ]
    ring

/-- A factor needs no more bits than the product. -/
theorem holds_factor {a b : Nat} (positive : 1 ≤ b) (h : Holds (a * b)) : Holds a := by
  obtain ⟨below, k, e, bits, product⟩ := h
  have least_b : (1 : Rat) ≤ b := by exact_mod_cast positive
  refine ⟨lt_of_le_of_lt (by push_cast; exact le_mul_of_one_le_right a.cast_nonneg least_b) below, ?_⟩
  rcases Nat.eq_zero_or_pos a with rfl | nonzero
  · exact ⟨0, 0, by decide, rfl⟩
  obtain ⟨f, odd_part, odd, split⟩ := Nat.exists_eq_two_pow_mul_odd nonzero.ne'
  have apart : Nat.Coprime odd_part (2 ^ e) := (Nat.coprime_two_right.mpr odd).pow_right e
  have divides : odd_part ∣ k * 2 ^ e := by
    rw [← product, split]
    exact (Dvd.intro_left _ rfl).mul_right b
  have least : 0 < k := by
    rcases Nat.eq_zero_or_pos k with rfl | least
    · rw [Nat.zero_mul] at product
      have := Nat.mul_pos nonzero positive
      omega
    · exact least
  have few := Nat.le_of_dvd least (apart.dvd_of_dvd_mul_right divides)
  exact ⟨odd_part, f, few.trans_lt bits, by rw [split, Nat.mul_comm]⟩

end Binary64
