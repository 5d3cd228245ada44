/-
Rounding to the numbers of a binary format: so many significant bits, to
nearest, ties to even, the subnormal numbers included. There is no largest
number here; `Lib.Floating` has the infinities.

`round_mono`: rounding is monotone, so a computation that is monotone in its
input is bounded by its value at one input. `round_of_mantissa` says what is
not rounded, and `round_four_mul` that a scale of four commutes with it.
-/
import Mathlib.Data.Int.Log
import Mathlib.Data.Rat.Floor
import Mathlib.Tactic.Linarith
import Mathlib.Tactic.FieldSimp
import Mathlib.Tactic.NormNum

namespace GptCache

/-- Its significant bits, the exponent of its least number and the power of two
from which on a number is infinite. -/
structure Format where
  precision : Nat
  minExponent : ℤ
  bound : Nat
  precision_pos : 0 < precision
  minExponent_le : minExponent ≤ 0
  le_bound : 3 ≤ bound

namespace Format

variable {f : Format}

/-- The nearest integer, of two the even one. -/
def nearest (x : ℚ) : ℤ :=
  if x - ⌊x⌋ < 1 / 2 then ⌊x⌋ else if 1 / 2 < x - ⌊x⌋ then ⌊x⌋ + 1 else ⌊x⌋ + ⌊x⌋ % 2

@[simp] theorem nearest_intCast (n : ℤ) : nearest n = n := by simp [nearest]

theorem floor_le_nearest (x : ℚ) : ⌊x⌋ ≤ nearest x := by
  unfold nearest
  split_ifs <;> omega

theorem nearest_le_floor_add_one (x : ℚ) : nearest x ≤ ⌊x⌋ + 1 := by
  unfold nearest
  split_ifs <;> omega

theorem nearest_mono {x y : ℚ} (h : x ≤ y) : nearest x ≤ nearest y := by
  rcases (Int.floor_mono h).lt_or_eq with hlt | heq
  · calc nearest x ≤ ⌊x⌋ + 1 := nearest_le_floor_add_one x
      _ ≤ ⌊y⌋ := hlt
      _ ≤ nearest y := floor_le_nearest y
  · simp only [nearest, heq]
    split_ifs <;> first | omega | linarith

theorem nearest_neg (x : ℚ) : nearest (-x) = -nearest x := by
  by_cases hint : x = ⌊x⌋
  · rw [hint, ← Int.cast_neg, nearest_intCast, nearest_intCast]
  have hlt : (⌊x⌋ : ℚ) < x := lt_of_le_of_ne (Int.floor_le x) (Ne.symm hint)
  have hfloor : ⌊-x⌋ = -⌊x⌋ - 1 := by
    rw [Int.floor_eq_iff]
    have := Int.lt_floor_add_one x
    push_cast
    constructor <;> linarith
  simp only [nearest, hfloor]
  push_cast
  split_ifs <;> first | omega | linarith

/-! ## The last place -/

/-- The exponent of the unit in the last place. -/
def exponent (f : Format) (x : ℚ) : ℤ := max (Int.log 2 |x| - (f.precision - 1)) f.minExponent

def ulp (f : Format) (x : ℚ) : ℚ := 2 ^ f.exponent x

def round (f : Format) (x : ℚ) : ℚ := nearest (x / f.ulp x) * f.ulp x

theorem ulp_pos (f : Format) (x : ℚ) : 0 < f.ulp x := zpow_pos (by norm_num) _

theorem exponent_mono {x y : ℚ} (hx : 0 < x) (h : x ≤ y) : f.exponent x ≤ f.exponent y := by
  have hlog : Int.log 2 |x| ≤ Int.log 2 |y| := Int.log_mono_right (abs_pos.mpr hx.ne')
    (by rwa [abs_of_pos hx, abs_of_pos (hx.trans_le h)])
  unfold exponent
  omega

/-- A power of two from its own last place on has that place. -/
theorem exists_mul_ulp {x : ℚ} {k : ℤ} (hk : f.exponent x ≤ k) (m : ℤ) : ∃ n : ℤ, (m : ℚ) * 2 ^ k = n * f.ulp x := by
  obtain ⟨j, hj⟩ := Int.le.dest hk
  refine ⟨m * 2 ^ j, ?_⟩
  rw [ulp, ← hj, zpow_add₀ (by norm_num)]
  push_cast
  rw [zpow_natCast]
  ring

theorem round_le {x : ℚ} {n : ℤ} (h : x ≤ n * f.ulp x) : f.round x ≤ n * f.ulp x := by
  refine mul_le_mul_of_nonneg_right ?_ (f.ulp_pos x).le
  exact_mod_cast (nearest_mono ((div_le_iff₀ (f.ulp_pos x)).mpr h)).trans_eq (nearest_intCast n)

theorem le_round {x : ℚ} {n : ℤ} (h : n * f.ulp x ≤ x) : n * f.ulp x ≤ f.round x := by
  refine mul_le_mul_of_nonneg_right ?_ (f.ulp_pos x).le
  exact_mod_cast (nearest_intCast n).symm.trans_le (nearest_mono ((le_div_iff₀ (f.ulp_pos x)).mpr h))

/-- A multiple of its own last place is not rounded. -/
theorem round_of_multiple {x : ℚ} {n : ℤ} (h : x = n * f.ulp x) : f.round x = x :=
  le_antisymm ((round_le h.le).trans_eq h.symm) (h.le.trans (le_round h.ge))

@[simp] theorem round_zero : f.round 0 = 0 := round_of_multiple (n := 0) (by simp)

theorem round_neg (x : ℚ) : f.round (-x) = -f.round x := by
  have hulp : f.ulp (-x) = f.ulp x := by rw [ulp, ulp, exponent, exponent, abs_neg]
  rw [round, round, hulp, neg_div, nearest_neg]
  push_cast
  ring

theorem round_nonneg {x : ℚ} (h : 0 ≤ x) : 0 ≤ f.round x := by
  simpa using le_round (x := x) (n := 0) (by simpa using h)

theorem round_mono {x y : ℚ} (hx : 0 ≤ x) (h : x ≤ y) : f.round x ≤ f.round y := by
  rcases hx.eq_or_lt with rfl | hpos
  · simpa using round_nonneg h
  have hy : 0 < y := hpos.trans_le h
  rcases (exponent_mono (f := f) hpos h).lt_or_eq with hlt | heq
  · -- What is above has a higher binade, which starts with a number of both.
    have hlog : f.exponent y = Int.log 2 y - (f.precision - 1) ∧ Int.log 2 x < Int.log 2 y := by
      simp only [exponent, abs_of_pos hpos, abs_of_pos hy] at hlt ⊢
      omega
    have hbelow : x ≤ 2 ^ Int.log 2 y := by
      have hself : x < 2 ^ (Int.log 2 x + 1) := by exact_mod_cast Int.lt_zpow_succ_log_self (b := 2) (by norm_num) x
      exact hself.le.trans (zpow_le_zpow_right₀ (by norm_num) hlog.2)
    have habove : (2 : ℚ) ^ Int.log 2 y ≤ y := by exact_mod_cast Int.zpow_log_le_self (b := 2) (by norm_num) hy
    have hbits := f.precision_pos
    obtain ⟨n, hn⟩ := exists_mul_ulp (f := f) (x := x) (k := Int.log 2 y) (by omega) 1
    obtain ⟨n', hn'⟩ := exists_mul_ulp (f := f) (x := y) (k := Int.log 2 y) (by omega) 1
    rw [Int.cast_one, one_mul] at hn hn'
    calc f.round x ≤ n * f.ulp x := round_le (hbelow.trans_eq hn)
      _ = n' * f.ulp y := hn.symm.trans hn'
      _ ≤ f.round y := le_round (hn'.ge.trans habove)
  · have hulp : f.ulp x = f.ulp y := by rw [ulp, heq, ulp]
    rw [round, round, hulp]
    refine mul_le_mul_of_nonneg_right ?_ (f.ulp_pos y).le
    exact_mod_cast nearest_mono (div_le_div_of_nonneg_right h (f.ulp_pos y).le)

/-! ## Numbers that are not rounded -/

theorem exponent_le {x : ℚ} (hx : x ≠ 0) {k : ℤ} (hk : f.minExponent ≤ k) (h : |x| < 2 ^ (k + f.precision)) :
    f.exponent x ≤ k := by
  have hlog : Int.log 2 |x| < k + f.precision :=
    (Int.lt_zpow_iff_log_lt (by norm_num) (abs_pos.mpr hx)).mp (by exact_mod_cast h)
  unfold exponent
  omega

/-- A mantissa of so many bits is not rounded. -/
theorem round_of_mantissa {m k : ℤ} (hm : |m| ≤ 2 ^ f.precision) (hk : f.minExponent ≤ k) :
    f.round (m * 2 ^ k) = m * 2 ^ k := by
  have hpow : (0 : ℚ) < 2 ^ k := zpow_pos (by norm_num) k
  have hstrict : ∀ {m k : ℤ}, |m| < 2 ^ f.precision → f.minExponent ≤ k → f.round (m * 2 ^ k) = m * 2 ^ k := by
    intro m k hm hk
    have hpow : (0 : ℚ) < 2 ^ k := zpow_pos (by norm_num) k
    rcases eq_or_ne m 0 with rfl | hne
    · simp
    have hsize : |(m : ℚ) * 2 ^ k| < 2 ^ (k + f.precision) := by
      rw [abs_mul, abs_of_pos hpow, zpow_add₀ (by norm_num), mul_comm]
      exact mul_lt_mul_of_pos_left (by exact_mod_cast hm) hpow
    obtain ⟨n, hn⟩ := exists_mul_ulp (exponent_le (mul_ne_zero (by exact_mod_cast hne) hpow.ne') hk hsize) m
    exact round_of_multiple hn
  rcases hm.lt_or_eq with hlt | heq
  · exact hstrict hlt hk
  · -- The one mantissa with a bit more is a power of two.
    have heven : (2 : ℤ) ^ f.precision = 2 * 2 ^ (f.precision - 1) := by
      rw [← pow_succ', Nat.sub_add_cancel f.precision_pos]
    have hpos : (0 : ℤ) < 2 ^ (f.precision - 1) := by positivity
    rw [heven] at heq
    obtain ⟨j, hj, hsmall⟩ : ∃ j : ℤ, m = 2 * j ∧ |j| < 2 * 2 ^ (f.precision - 1) := by
      refine ⟨m / 2, ?_, ?_⟩
      · rcases abs_choice m with h | h <;> omega
      · rw [abs_lt]
        rcases abs_choice m with h | h <;> omega
    have hshift : (m : ℚ) * 2 ^ k = j * 2 ^ (k + 1) := by
      rw [hj, zpow_add₀ (by norm_num)]
      push_cast
      ring
    rw [hshift]
    exact hstrict (heven ▸ hsmall) (by omega)

/-- A rounded number is one. -/
theorem round_eq_mantissa (x : ℚ) : ∃ m k : ℤ, |m| ≤ 2 ^ f.precision ∧ f.minExponent ≤ k ∧ f.round x = m * 2 ^ k := by
  refine ⟨nearest (x / f.ulp x), f.exponent x, ?_, le_max_right _ _, rfl⟩
  have hself : |x| < 2 ^ f.precision * f.ulp x := by
    have hlog : |x| < 2 ^ (Int.log 2 |x| + 1) := by exact_mod_cast Int.lt_zpow_succ_log_self (b := 2) (by norm_num) |x|
    refine hlog.trans_le ?_
    have hle : Int.log 2 |x| + 1 ≤ f.precision + f.exponent x := by
      unfold exponent
      omega
    refine (zpow_le_zpow_right₀ (by norm_num) hle).trans_eq ?_
    rw [zpow_add₀ (by norm_num), ulp]
    norm_num
  obtain ⟨hlow, hhigh⟩ := abs_lt.mp hself
  rw [abs_le]
  have hleast : ((-2 ^ f.precision : ℤ) : ℚ) ≤ x / f.ulp x := by
    rw [le_div_iff₀ (f.ulp_pos x)]
    push_cast
    linarith
  have hmost : x / f.ulp x ≤ ((2 ^ f.precision : ℤ) : ℚ) := by
    rw [div_le_iff₀ (f.ulp_pos x)]
    push_cast
    exact hhigh.le
  exact ⟨(nearest_intCast _).symm.trans_le (nearest_mono hleast), (nearest_mono hmost).trans_eq (nearest_intCast _)⟩

@[simp] theorem round_round (x : ℚ) : f.round (f.round x) = f.round x := by
  obtain ⟨m, k, hm, hk, hround⟩ := round_eq_mantissa x
  rw [hround]
  exact round_of_mantissa hm hk

/-- The least positive number. -/
def least (f : Format) : ℚ := 2 ^ f.minExponent

/-- Every number of the format is a multiple of it. -/
def OnGrid (f : Format) (x : ℚ) : Prop := ∃ n : ℤ, x = n * f.least

theorem onGrid_round (x : ℚ) : f.OnGrid (f.round x) := by
  obtain ⟨m, k, -, hk, hround⟩ := round_eq_mantissa x
  obtain ⟨j, hj⟩ := Int.le.dest hk
  refine ⟨m * 2 ^ j, ?_⟩
  rw [hround, ← hj, zpow_add₀ (by norm_num), ← least]
  push_cast
  rw [zpow_natCast]
  ring

theorem OnGrid.add {x y : ℚ} (hx : f.OnGrid x) (hy : f.OnGrid y) : f.OnGrid (x + y) := by
  obtain ⟨m, rfl⟩ := hx
  obtain ⟨n, rfl⟩ := hy
  exact ⟨m + n, by push_cast; ring⟩

theorem log_mul_zpow {x : ℚ} (hx : 0 < x) (k : ℤ) : Int.log 2 (x * 2 ^ k) = Int.log 2 x + k := by
  have hpow : (0 : ℚ) < 2 ^ k := zpow_pos (by norm_num) k
  have hprod : 0 < x * 2 ^ k := mul_pos hx hpow
  apply le_antisymm
  · rw [← Int.lt_add_one_iff, ← Int.lt_zpow_iff_log_lt (by norm_num) hprod]
    rw [show Int.log 2 x + k + 1 = Int.log 2 x + 1 + k by ring, zpow_add₀ (by norm_num)]
    exact mul_lt_mul_of_pos_right (Int.lt_zpow_succ_log_self (by norm_num) x) hpow
  · rw [← Int.zpow_le_iff_le_log (by norm_num) hprod, zpow_add₀ (by norm_num)]
    exact mul_le_mul_of_nonneg_right (Int.zpow_log_le_self (by norm_num) hx) hpow.le

/-- A number of the grid is rounded as four times it is: its exponent is the
least one, and it is no number to be rounded, or goes up by two. -/
theorem round_four_mul {x : ℚ} (h : f.OnGrid x) : f.round (4 * x) = 4 * f.round x := by
  rcases eq_or_ne x 0 with rfl | hx
  · simp
  have hlog : Int.log 2 |4 * x| = Int.log 2 |x| + 2 := by
    have habs : |4 * x| = |x| * 2 ^ (2 : ℤ) := by
      rw [abs_mul, mul_comm]
      norm_num
    rw [habs, log_mul_zpow (abs_pos.mpr hx)]
  rcases le_or_gt (f.minExponent) (Int.log 2 |x| - (f.precision - 1)) with hnormal | hsubnormal
  · have hulp : f.ulp (4 * x) = 4 * f.ulp x := by
      have hexp : f.exponent (4 * x) = 2 + f.exponent x := by
        unfold exponent
        omega
      rw [ulp, ulp, hexp, zpow_add₀ (by norm_num)]
      norm_num
    rw [round, round, hulp, mul_div_mul_left _ _ (by norm_num)]
    ring
  · obtain ⟨n, hn⟩ := h
    have hself : f.ulp x = f.least := by rw [ulp, exponent, max_eq_right hsubnormal.le, least]
    obtain ⟨n', hn'⟩ := exists_mul_ulp (f := f) (x := 4 * x) (k := 2 + f.minExponent) (by unfold exponent; omega) n
    have hfour : 4 * x = n' * f.ulp (4 * x) := by
      rw [← hn', hn, zpow_add₀ (by norm_num), ← least]
      ring
    rw [round_of_multiple hfour, round_of_multiple (hn.trans (by rw [hself]))]

end Format

/-! ## The formats of IEEE 754 -/

def Format.binary32 : Format := ⟨24, -149, 128, by decide, by decide, by decide⟩

def Format.binary64 : Format := ⟨53, -1074, 1024, by decide, by decide, by decide⟩

namespace Binary64

/-- Rounding to a double. -/
def round (x : ℚ) : ℚ := Format.binary64.round x

theorem round_nonneg {x : ℚ} (h : 0 ≤ x) : 0 ≤ round x := Format.round_nonneg h

theorem round_mono {x y : ℚ} (hx : 0 ≤ x) (h : x ≤ y) : round x ≤ round y := Format.round_mono hx h

@[simp] theorem round_round (x : ℚ) : round (round x) = round x := Format.round_round x

/-- The natural numbers up to `2 ^ 53` are doubles. -/
theorem round_natCast {n : Nat} (h : n ≤ 2 ^ 53) : round n = n := by
  unfold round
  simpa using Format.round_of_mantissa (f := .binary64) (m := n) (k := 0) (by rw [Nat.abs_cast]; exact_mod_cast h)
    (by decide)

theorem round_zpow {k : ℤ} (hk : -1074 ≤ k) : round (2 ^ k) = 2 ^ k := by
  unfold round
  simpa using Format.round_of_mantissa (f := .binary64) (m := 1) (k := k) (by decide) hk

/-- The product of two numbers that are large enough is not lost. -/
theorem zpow_le_round_mul {x y : ℚ} {k l : ℤ} (hx : 2 ^ k ≤ x) (hy : 2 ^ l ≤ y) (hkl : -1074 ≤ k + l) :
    2 ^ (k + l) ≤ round (x * y) := by
  have hpos : ∀ k : ℤ, (0 : ℚ) < 2 ^ k := fun k => zpow_pos (by norm_num) k
  rw [← round_zpow hkl]
  refine round_mono (hpos _).le ?_
  rw [zpow_add₀ (by norm_num)]
  exact mul_le_mul hx hy (hpos l).le ((hpos k).le.trans hx)

end Binary64

end GptCache
