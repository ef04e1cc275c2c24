import Mathlib.Algebra.Order.Field.Power
import Mathlib.Data.Int.Log
import Mathlib.Data.Rat.Floor
import Mathlib.Tactic.Linarith
import Mathlib.Tactic.NormNum
import Mathlib.Tactic.Positivity
import Mathlib.Tactic.Ring

namespace RocketMQClient.Library.Binary64

def roundEven (q : ℚ) : Int :=
  let below := ⌊q⌋
  let rest := q - below
  if rest < 1 / 2 then below
  else if 1 / 2 < rest then below + 1
  else if below % 2 = 0 then below
  else below + 1

/-- The exponent of the last place of the doubles around `x`. -/
def lastPlace (x : ℚ) : Int := max (Int.log 2 |x| - 52) (-1074)

def round (x : ℚ) : ℚ := roundEven (x / 2 ^ lastPlace x) * 2 ^ lastPlace x

theorem le_roundEven {q : ℚ} {z : Int} (h : z ≤ q) : z ≤ roundEven q := by
  have hfloor : z ≤ ⌊q⌋ := Int.le_floor.mpr h
  unfold roundEven
  dsimp only
  split_ifs <;> omega

theorem roundEven_le {q : ℚ} {z : Int} (h : q ≤ z) : roundEven q ≤ z := by
  unfold roundEven
  dsimp only
  by_cases hq : q = z
  · simp [hq]
  · have hfloor : ⌊q⌋ < z := Int.floor_lt.mpr (lt_of_le_of_ne h hq)
    split_ifs <;> omega

theorem roundEven_mono {q r : ℚ} (h : q ≤ r) : roundEven q ≤ roundEven r := by
  have hfloor := Int.floor_le_floor h
  by_cases heq : ⌊q⌋ = ⌊r⌋
  · unfold roundEven
    dsimp only
    rw [heq]
    split_ifs <;> first | omega | linarith
  · have hsucc : ⌊q⌋ + 1 ≤ ⌊r⌋ := by omega
    have hq : roundEven q ≤ ⌊q⌋ + 1 := roundEven_le (by push_cast; exact (Int.lt_floor_add_one q).le)
    exact hq.trans (hsucc.trans (le_roundEven (Int.floor_le r)))

theorem roundEven_intCast (z : Int) : roundEven z = z :=
  le_antisymm (roundEven_le le_rfl) (le_roundEven le_rfl)

theorem roundEven_neg (q : ℚ) : roundEven (-q) = -roundEven q := by
  by_cases hint : (⌊q⌋ : ℚ) = q
  · obtain ⟨z, rfl⟩ : ∃ z : Int, q = z := ⟨⌊q⌋, hint.symm⟩
    rw [← Int.cast_neg, roundEven_intCast, roundEven_intCast]
  · have hlt : (⌊q⌋ : ℚ) < q := lt_of_le_of_ne (Int.floor_le q) hint
    have hfloor : ⌊-q⌋ = -⌊q⌋ - 1 := by
      rw [Int.floor_eq_iff]
      have := Int.lt_floor_add_one q
      push_cast
      constructor <;> linarith
    unfold roundEven
    dsimp only
    rw [hfloor]
    push_cast
    split_ifs <;> first | omega | linarith

theorem round_neg (x : ℚ) : round (-x) = -round x := by
  have hplace : lastPlace (-x) = lastPlace x := by rw [lastPlace, abs_neg, lastPlace]
  rw [round, hplace, neg_div, roundEven_neg, round]
  push_cast
  ring

section Grid

variable {x y : ℚ} {z k : Int}

theorem exists_units (h : lastPlace x ≤ k) (z : Int) :
    ∃ w : Int, (z : ℚ) * 2 ^ k = w * 2 ^ lastPlace x := by
  refine ⟨z * 2 ^ (k - lastPlace x).toNat, ?_⟩
  have hk : ((k - lastPlace x).toNat : Int) = k - lastPlace x := Int.toNat_of_nonneg (by omega)
  have hpow : ((2 : ℚ) ^ (k - lastPlace x).toNat) = 2 ^ (k - lastPlace x) := by
    rw [← zpow_natCast, hk]
  push_cast
  rw [hpow, mul_assoc, ← zpow_add₀ (by norm_num)]
  congr 2
  omega

theorem round_le (h : x ≤ z * 2 ^ k) (hk : lastPlace x ≤ k) : round x ≤ z * 2 ^ k := by
  obtain ⟨w, hw⟩ := exists_units hk z
  have hpos : (0 : ℚ) < 2 ^ lastPlace x := by positivity
  rw [hw] at h ⊢
  rw [round, mul_le_mul_iff_left₀ hpos, Int.cast_le]
  exact roundEven_le ((div_le_iff₀ hpos).mpr h)

theorem le_round (h : z * 2 ^ k ≤ x) (hk : lastPlace x ≤ k) : z * 2 ^ k ≤ round x := by
  obtain ⟨w, hw⟩ := exists_units hk z
  have hpos : (0 : ℚ) < 2 ^ lastPlace x := by positivity
  rw [hw] at h ⊢
  rw [round, mul_le_mul_iff_left₀ hpos, Int.cast_le]
  exact le_roundEven ((le_div_iff₀ hpos).mpr h)

theorem round_eq_self (h : x = z * 2 ^ k) (hk : lastPlace x ≤ k) : round x = x := by
  refine le_antisymm ?_ ?_
  · exact (round_le h.le hk).trans h.ge
  · exact h.le.trans (le_round h.ge hk)

theorem lastPlace_mono (hx : 0 < x) (h : x ≤ y) : lastPlace x ≤ lastPlace y := by
  have habs : |x| ≤ |y| := abs_le_abs_of_nonneg hx.le h
  have := Int.log_mono_right (b := 2) (abs_pos.mpr hx.ne') habs
  unfold lastPlace
  omega

theorem round_mono (hx : 0 < x) (h : x ≤ y) : round x ≤ round y := by
  have hplace := lastPlace_mono hx h
  have hy : 0 < y := hx.trans_le h
  rcases hplace.lt_or_eq with hlt | heq
  · -- the power of two at the bottom of the binade of `y` lies between the two
    have hlog : lastPlace y = Int.log 2 y - 52 ∧ Int.log 2 x < Int.log 2 y := by
      unfold lastPlace at hlt ⊢
      rw [abs_of_pos hx, abs_of_pos hy] at *
      omega
    have hxlog : lastPlace x ≤ Int.log 2 y := by
      omega
    have hle : x ≤ (1 : Int) * 2 ^ Int.log 2 y := by
      have := Int.lt_zpow_succ_log_self (b := 2) one_lt_two x
      have hmono : (2 : ℚ) ^ (Int.log 2 x + 1) ≤ 2 ^ Int.log 2 y :=
        zpow_le_zpow_right₀ one_le_two hlog.2
      push_cast at this ⊢
      linarith
    have hge : ((1 : Int) : ℚ) * 2 ^ Int.log 2 y ≤ y := by
      have := Int.zpow_log_le_self (b := 2) one_lt_two hy
      push_cast at this ⊢
      linarith
    exact (round_le hle hxlog).trans (le_round hge (by omega))
  · have hpos : (0 : ℚ) < 2 ^ lastPlace y := by positivity
    rw [round, round, heq, mul_le_mul_iff_left₀ hpos, Int.cast_le]
    exact roundEven_mono (div_le_div_of_nonneg_right h hpos.le)

theorem round_natCast {n : Nat} (h : n < 2 ^ 53) : round n = n := by
  refine round_eq_self (z := n) (k := 0) (by simp) ?_
  have hlog : Int.log 2 (n : ℚ) ≤ 52 := by
    rw [Int.log_natCast]
    rcases Nat.eq_zero_or_pos n with rfl | hn
    · simp
    · have := Nat.log_lt_of_lt_pow hn.ne' h
      omega
  unfold lastPlace
  rw [Nat.abs_cast]
  omega

theorem lastPlace_le (hx : x ≠ 0) (h : |x| < 2 ^ k) : lastPlace x ≤ max (k - 53) (-1074) := by
  have := (Int.lt_zpow_iff_log_lt (b := 2) one_lt_two (abs_pos.mpr hx)).mp (by push_cast; exact h)
  unfold lastPlace
  omega

theorem abs_round_le (h : |x| ≤ 2 ^ k) (hk : lastPlace x ≤ k) : |round x| ≤ 2 ^ k := by
  obtain ⟨hlow, hhigh⟩ := abs_le.mp h
  have hle := round_le (x := x) (z := 1) (by push_cast; linarith) hk
  have hge := le_round (x := x) (z := -1) (by push_cast; linarith) hk
  push_cast at hle hge
  exact abs_le.mpr ⟨by linarith, by linarith⟩

theorem round_of_abs_eq (h : |x| = 2 ^ k) (hk : -1074 ≤ k) : round x = x := by
  have hplace : lastPlace x ≤ k := by
    unfold lastPlace
    rw [h]
    have := Int.log_zpow (R := ℚ) (b := 2) one_lt_two k
    push_cast at this
    omega
  rcases eq_or_eq_neg_of_abs_eq h with h | h
  · exact round_eq_self (z := 1) (by rw [h]; push_cast; ring) hplace
  · exact round_eq_self (z := -1) (by rw [h]; push_cast; ring) hplace

theorem abs_le_two_zpow (x : ℚ) : |x| ≤ 2 ^ max (Int.log 2 |x| + 1) (-1074) := by
  have hlog := Int.lt_zpow_succ_log_self (b := 2) one_lt_two |x|
  have hmono : (2 : ℚ) ^ (Int.log 2 |x| + 1) ≤ 2 ^ max (Int.log 2 |x| + 1) (-1074) :=
    zpow_le_zpow_right₀ one_le_two (le_max_left _ _)
  push_cast at hlog
  linarith

theorem round_round (x : ℚ) : round (round x) = round x := by
  by_cases hzero : round x = 0
  · rw [hzero]
    exact_mod_cast round_natCast (n := 0) (by norm_num)
  have hbound := abs_le_two_zpow x
  -- either the result keeps to the grid of `x`, or it is the next power of two
  generalize hK : max (Int.log 2 |x| + 1) (-1074) = K at hbound
  have hplace : lastPlace x ≤ K := by
    unfold lastPlace
    omega
  rcases (abs_round_le hbound hplace).lt_or_eq with hlt | heq
  · refine round_eq_self rfl ?_
    have := lastPlace_le hzero hlt
    unfold lastPlace at this ⊢
    omega
  · exact round_of_abs_eq heq (by omega)

end Grid

end RocketMQClient.Library.Binary64
