import Mathlib.Data.List.DropRight
import RocketMQClient.Js.Value
import RocketMQClient.Library.Binary64

namespace RocketMQClient.Js

open Library

namespace JsNumber

def ofRat (q : ℚ) : JsNumber :=
  if |Binary64.round q| < 2 ^ 1024 then .finite (Binary64.round q) else .infinity (q < 0)

def neg : JsNumber → JsNumber
  | .nan => .nan
  | .infinity negative => .infinity !negative
  | .finite q => .finite (-q)

def add : JsNumber → JsNumber → JsNumber
  | .finite p, .finite q => ofRat (p + q)
  | .infinity a, .infinity b => if a = b then .infinity a else .nan
  | .infinity a, .finite _ => .infinity a
  | .finite _, .infinity b => .infinity b
  | _, _ => .nan

def divBy (x : JsNumber) (d : ℚ) : JsNumber :=
  match x with
  | .nan => .nan
  | .infinity negative => .infinity (negative != decide (d < 0))
  | .finite q => ofRat (q / d)

def le : JsNumber → JsNumber → Bool
  | .nan, _ => false
  | _, .nan => false
  | .infinity true, _ => true
  | _, .infinity false => true
  | .finite p, .finite q => p ≤ q
  | _, _ => false

def isStrWhiteSpace (c : Char) : Bool :=
  c.toNat ∈ [0x9, 0xa, 0xb, 0xc, 0xd, 0x20, 0xa0, 0x1680, 0x2028, 0x2029, 0x202f, 0x205f, 0x3000,
    0xfeff] ∨ 0x2000 ≤ c.toNat ∧ c.toNat ≤ 0x200a

def digitValue (c : Char) : Nat :=
  if c.isDigit then c.toNat - '0'.toNat
  else if 'a' ≤ c ∧ c ≤ 'z' then c.toNat - 'a'.toNat + 10
  else if 'A' ≤ c ∧ c ≤ 'Z' then c.toNat - 'A'.toNat + 10
  else 36

def digitsValue (radix : Nat) (ds : List Char) : Nat :=
  ds.foldl (fun value c => radix * value + digitValue c) 0

def integerLiteral (radix : Nat) (ds : List Char) : JsNumber :=
  if ds ≠ [] ∧ ds.all (digitValue · < radix) then ofRat (digitsValue radix ds) else .nan

def exponentDigits (ds : List Char) : Option Nat :=
  if ds ≠ [] ∧ ds.all Char.isDigit then some (digitsValue 10 ds) else none

def exponentPart : List Char → Option Int
  | [] => some 0
  | c :: rest =>
    if c = 'e' ∨ c = 'E' then
      match rest with
      | '-' :: ds => (exponentDigits ds).map fun e => -(e : Int)
      | '+' :: ds => (exponentDigits ds).map Int.ofNat
      | ds => (exponentDigits ds).map Int.ofNat
    else none

def decimalOf (whole fraction rest : List Char) : JsNumber :=
  if whole ++ fraction = [] then .nan
  else
    match exponentPart rest with
    | some e => ofRat (digitsValue 10 (whole ++ fraction) * 10 ^ (e - fraction.length))
    | none => .nan

def unsignedDecimal (cs : List Char) : JsNumber :=
  if cs = "Infinity".toList then .infinity false
  else
    let whole := cs.takeWhile Char.isDigit
    match cs.dropWhile Char.isDigit with
    | '.' :: rest => decimalOf whole (rest.takeWhile Char.isDigit) (rest.dropWhile Char.isDigit)
    | rest => decimalOf whole [] rest

def decimalLiteral : List Char → JsNumber
  | '-' :: cs => neg (unsignedDecimal cs)
  | '+' :: cs => unsignedDecimal cs
  | cs => unsignedDecimal cs

def ofChars : List Char → JsNumber
  | [] => .finite 0
  | '0' :: c :: ds =>
    if c = 'x' ∨ c = 'X' then integerLiteral 16 ds
    else if c = 'o' ∨ c = 'O' then integerLiteral 8 ds
    else if c = 'b' ∨ c = 'B' then integerLiteral 2 ds
    else decimalLiteral ('0' :: c :: ds)
  | cs => decimalLiteral cs

def ofString (s : String) : JsNumber :=
  ofChars ((s.toList.dropWhile isStrWhiteSpace).rdropWhile isStrWhiteSpace)

structure Decimal where
  s : Nat
  n : Int
  deriving DecidableEq

def Decimal.value (d : Decimal) (k : Nat) : ℚ := d.s * 10 ^ (d.n - k)

def below (x : ℚ) (k : Nat) : Decimal :=
  let n := Int.log 10 x + 1
  ⟨⌊x * 10 ^ (k - n)⌋.toNat, n⟩

def above (x : ℚ) (k : Nat) : Decimal :=
  let d := below x k
  if d.s + 1 = 10 ^ k then ⟨10 ^ (k - 1), d.n + 1⟩ else ⟨d.s + 1, d.n⟩

def readsBack (x : ℚ) (k : Nat) (d : Decimal) : Bool := Binary64.round (d.value k) = x

/-- The closer one of those that read back, and the even one of two as close. -/
def withDigits (x : ℚ) (k : Nat) : Option Decimal :=
  let lo := below x k
  let hi := above x k
  let loFirst := x - lo.value k < hi.value k - x ∨ x - lo.value k = hi.value k - x ∧ lo.s % 2 = 0
  if readsBack x k lo ∧ (readsBack x k hi → loFirst) then some lo
  else if readsBack x k hi then some hi
  else none

/-- No double has more digits in its decimal expansion. -/
def maxDigits : Nat := 1400

def shortest (x : ℚ) : Option (Nat × Decimal) :=
  (List.range' 1 maxDigits).findSome? fun k => (withDigits x k).map (k, ·)

def format (k : Nat) (d : Decimal) : List Char :=
  let digits := Nat.toDigits 10 d.s
  if k ≤ d.n ∧ d.n ≤ 21 then digits ++ List.replicate (d.n - k).toNat '0'
  else if 0 < d.n ∧ d.n ≤ 21 then digits.take d.n.toNat ++ '.' :: digits.drop d.n.toNat
  else if -6 < d.n ∧ d.n ≤ 0 then '0' :: '.' :: List.replicate (-d.n).toNat '0' ++ digits
  else
    let e := d.n - 1
    let exponent := 'e' :: (if 0 ≤ e then '+' else '-') :: Nat.toDigits 10 e.natAbs
    if k = 1 then digits ++ exponent else digits.take 1 ++ '.' :: digits.drop 1 ++ exponent

def positiveToString (x : ℚ) : String :=
  match shortest x with
  | some (k, d) => String.ofList (format k d)
  | none => ""

def toString : JsNumber → String
  | .nan => "NaN"
  | .infinity negative => if negative then "-Infinity" else "Infinity"
  | .finite q =>
    if q = 0 then "0"
    else if q < 0 then "-" ++ positiveToString (-q)
    else positiveToString q

section Shortest

variable {x : ℚ} {k : Nat} {d : Decimal}

theorem below_s (hx : 0 < x) : ((below x k).s : ℚ) = ⌊x * 10 ^ (k - (Int.log 10 x + 1))⌋ := by
  have hnonneg : 0 ≤ ⌊x * 10 ^ ((k : Int) - (Int.log 10 x + 1))⌋ := Int.floor_nonneg.mpr (by positivity)
  rw [below, ← Int.cast_natCast, Int.toNat_of_nonneg hnonneg]

theorem mul_ten_zpow {y : ℚ} {a b : Int} (h : a + b = 0) : y * 10 ^ a * 10 ^ b = y := by
  rw [mul_assoc, ← zpow_add₀ (by norm_num), h, zpow_zero, mul_one]

theorem lt_above (hx : 0 < x) (hk : 1 ≤ k) : x < (above x k).value k := by
  have hlog := Int.lt_zpow_succ_log_self (b := 10) (by decide) x
  unfold above
  dsimp only
  split_ifs with hcarry
  · have hpow : ((10 ^ (k - 1) : Nat) : ℚ) * 10 ^ (Int.log 10 x + 1 + 1 - k) =
        10 ^ (Int.log 10 x + 1) := by
      push_cast
      rw [← zpow_natCast, ← zpow_add₀ (by norm_num)]
      congr 1
      omega
    rw [Decimal.value]
    exact hlog.trans_eq (by simpa [below] using hpow.symm)
  · have hfloor := Int.lt_floor_add_one (x * 10 ^ ((k : Int) - (Int.log 10 x + 1)))
    have hpos : (0 : ℚ) < 10 ^ (Int.log 10 x + 1 - k) := by positivity
    have := mul_lt_mul_of_pos_right hfloor hpos
    rw [mul_ten_zpow (by omega), ← below_s hx] at this
    rw [Decimal.value]
    push_cast
    exact this

theorem withDigits_spec (h : withDigits x k = some d) :
    (d = below x k ∨ d = above x k) ∧ Binary64.round (d.value k) = x := by
  unfold withDigits at h
  dsimp only at h
  split_ifs at h with hlo hhi
  · cases h
    exact ⟨.inl rfl, by simpa [readsBack] using hlo.1⟩
  · cases h
    exact ⟨.inr rfl, by simpa [readsBack] using hhi⟩

theorem shortest_spec (h : shortest x = some (k, d)) : 1 ≤ k ∧ withDigits x k = some d := by
  obtain ⟨k', hk', hd⟩ := List.exists_of_findSome?_eq_some h
  obtain ⟨d', hd', heq⟩ := Option.map_eq_some_iff.mp hd
  cases heq
  exact ⟨(List.mem_range'_1.mp hk').1, hd'⟩

theorem exists_int_mul_ten_zpow (hdouble : Binary64.round x = x) {j : Int} (hj : 1074 ≤ j) :
    ∃ w : Int, x * 10 ^ j = w := by
  obtain ⟨z, e, he, hx⟩ : ∃ z e : Int, -1074 ≤ e ∧ x = z * 2 ^ e :=
    ⟨_, Binary64.lastPlace x, le_max_right _ _, hdouble.symm⟩
  refine ⟨z * 2 ^ (e + j).toNat * 5 ^ j.toNat, ?_⟩
  have htwo : (2 : ℚ) ^ (e + j).toNat = 2 ^ e * 2 ^ j := by
    rw [← zpow_natCast, Int.toNat_of_nonneg (by omega), zpow_add₀ (by norm_num)]
  have hfive : (5 : ℚ) ^ j.toNat = 5 ^ j := by
    rw [← zpow_natCast, Int.toNat_of_nonneg (by omega)]
  push_cast
  rw [hx, htwo, hfive, show (10 : ℚ) = 2 * 5 by norm_num, mul_zpow]
  ring

theorem below_value (hx : 0 < x) {w : Int} (hw : x * 10 ^ (k - (Int.log 10 x + 1)) = w) :
    (below x k).value k = x := by
  have hs := below_s (k := k) hx
  rw [hw, Int.floor_intCast, ← hw] at hs
  rw [Decimal.value, hs]
  exact mul_ten_zpow (by simp [below])

theorem log_ten_lt (hx : 0 < x) (h : x < 2 ^ 1024) : Int.log 10 x < 309 := by
  have hpow : (2 : ℚ) ^ 1024 < 10 ^ 309 := by
    exact_mod_cast (show (2 : Nat) ^ 1024 < 10 ^ 309 by decide +kernel)
  exact (Int.lt_zpow_iff_log_lt (b := 10) (by decide) hx).mp (h.trans (by exact_mod_cast hpow))

theorem shortest_isSome (hdouble : Binary64.round x = x) (hx : 0 < x) (h : x < 2 ^ 1024) :
    (shortest x).isSome := by
  have hlog := log_ten_lt hx h
  obtain ⟨w, hw⟩ := exists_int_mul_ten_zpow hdouble (j := maxDigits - (Int.log 10 x + 1))
    (by simp only [maxDigits]; omega)
  have hlo := below_value hx hw
  have hhi := lt_above (k := maxDigits) hx (by decide)
  have hdigits : withDigits x maxDigits = some (below x maxDigits) := by
    unfold withDigits
    dsimp only
    rw [if_pos]
    refine ⟨by simp [readsBack, hlo, hdouble], fun _ => .inl ?_⟩
    rw [hlo]
    linarith
  rw [shortest, List.findSome?_isSome_iff]
  exact ⟨maxDigits, List.mem_range'_1.mpr (by simp [maxDigits]), by simp [hdigits]⟩

end Shortest

def IsDouble (x : JsNumber) : Prop :=
  ∀ q, x = .finite q → Binary64.round q = q ∧ |q| < 2 ^ 1024

theorem isDouble_nan : IsDouble .nan := nofun

theorem isDouble_infinity (negative : Bool) : IsDouble (.infinity negative) := nofun

theorem isDouble_ofRat (q : ℚ) : IsDouble (ofRat q) := by
  unfold ofRat
  split_ifs with h
  · rintro _ ⟨⟩
    exact ⟨Binary64.round_round q, h⟩
  · exact isDouble_infinity _

theorem IsDouble.neg {x : JsNumber} (h : IsDouble x) : IsDouble x.neg := by
  cases x with
  | nan => exact isDouble_nan
  | infinity negative => exact isDouble_infinity _
  | finite q =>
    rintro _ ⟨⟩
    obtain ⟨hround, hlt⟩ := h q rfl
    exact ⟨by rw [Binary64.round_neg, hround], by rwa [abs_neg]⟩

theorem natCast_lt_range {n : Nat} (h : n < 2 ^ 53) : (n : ℚ) < 2 ^ 1024 := by
  have hn : (n : ℚ) < 2 ^ 53 := by exact_mod_cast h
  exact hn.trans (pow_lt_pow_right₀ one_lt_two (by norm_num))

theorem isDouble_natCast {n : Nat} (h : n < 2 ^ 53) : IsDouble (.finite n) := by
  rintro _ ⟨⟩
  refine ⟨Binary64.round_natCast h, ?_⟩
  rw [Nat.abs_cast]
  exact natCast_lt_range h

theorem isDouble_integerLiteral (radix : Nat) (ds : List Char) :
    IsDouble (integerLiteral radix ds) := by
  unfold integerLiteral
  split_ifs
  · exact isDouble_ofRat _
  · exact isDouble_nan

theorem isDouble_decimalOf (whole fraction rest : List Char) :
    IsDouble (decimalOf whole fraction rest) := by
  unfold decimalOf
  split
  · exact isDouble_nan
  · split
    · exact isDouble_ofRat _
    · exact isDouble_nan

theorem isDouble_unsignedDecimal (cs : List Char) : IsDouble (unsignedDecimal cs) := by
  unfold unsignedDecimal
  dsimp only
  split
  · exact isDouble_infinity _
  · split <;> exact isDouble_decimalOf _ _ _

theorem isDouble_decimalLiteral (cs : List Char) : IsDouble (decimalLiteral cs) := by
  unfold decimalLiteral
  split
  · exact (isDouble_unsignedDecimal _).neg
  · exact isDouble_unsignedDecimal _
  · exact isDouble_unsignedDecimal _

theorem isDouble_ofString (s : String) : IsDouble (ofString s) := by
  unfold ofString ofChars
  split
  · exact_mod_cast isDouble_natCast (n := 0) (by decide)
  · split_ifs
    · exact isDouble_integerLiteral _ _
    · exact isDouble_integerLiteral _ _
    · exact isDouble_integerLiteral _ _
    · exact isDouble_decimalLiteral _
  · exact isDouble_decimalLiteral _

section Unit

variable {x : ℚ} {k : Nat} {d : Decimal}

theorem log_ten_unit (h1 : 1 ≤ x) (h10 : x < 10) : Int.log 10 x = 0 := by
  have hx : 0 < x := by linarith
  have hge := (Int.zpow_le_iff_le_log (b := 10) (x := 0) (by decide) hx).mp (by simpa using h1)
  have hlt := (Int.lt_zpow_iff_log_lt (b := 10) (x := 1) (by decide) hx).mp (by simpa using h10)
  omega

/-- The decimals next to a number from one to ten have one digit before the point; the
ten itself is the exception, and reads back as ten. -/
theorem withDigits_unit (h1 : 1 ≤ x) (h10 : x < 10) (hk : 1 ≤ k) (h : withDigits x k = some d) :
    d.n = 1 ∧ (k = 1 → d.s < 10) := by
  have hlog := log_ten_unit h1 h10
  have hbelow : (below x 1).s < 10 := by
    have hs := below_s (k := 1) (show 0 < x by linarith)
    have hfloor := Int.floor_le (x * 10 ^ (((1 : Nat) : Int) - (Int.log 10 x + 1)))
    rw [← hs, hlog] at hfloor
    norm_num at hfloor
    exact_mod_cast hfloor.trans_lt h10
  obtain ⟨rfl | rfl, hround⟩ := withDigits_spec h
  · exact ⟨by simp [below, hlog], fun h => h ▸ hbelow⟩
  · unfold above at hround ⊢
    dsimp only at hround ⊢
    split_ifs at hround ⊢ with hcarry
    · -- the carry makes it ten
      have hten : (Decimal.mk (10 ^ (k - 1)) ((below x k).n + 1)).value k = (10 : Nat) := by
        rw [Decimal.value]
        push_cast
        rw [← zpow_natCast, ← zpow_add₀ (by norm_num), below, hlog]
        dsimp only
        rw [show ((k - 1 : Nat) : Int) + (0 + 1 + 1 - k) = 1 by omega, zpow_one]
      rw [hten, Binary64.round_natCast (by decide)] at hround
      push_cast at hround
      linarith
    · refine ⟨by simp [below, hlog], ?_⟩
      rintro rfl
      dsimp only
      omega

theorem toString_unit (hdouble : IsDouble (.finite x)) (h1 : 1 ≤ x) (h10 : x < 10) :
    (∃ m : Nat, m < 10 ∧ x = m ∧ (JsNumber.finite x).toString.toList = [Nat.digitChar m]) ∨
      '.' ∈ (JsNumber.finite x).toString.toList := by
  have hx : 0 < x := by linarith
  obtain ⟨⟨k, d⟩, hshortest⟩ := Option.isSome_iff_exists.mp
    (shortest_isSome (hdouble x rfl).1 hx (lt_of_abs_lt (hdouble x rfl).2))
  obtain ⟨hk, hdigits⟩ := shortest_spec hshortest
  obtain ⟨hn, hs⟩ := withDigits_unit h1 h10 hk hdigits
  have hround := (withDigits_spec hdigits).2
  have htoString : (JsNumber.finite x).toString.toList = format k d := by
    simp [toString, hx.ne', hx.not_gt, positiveToString, hshortest]
  rw [htoString]
  unfold format
  dsimp only
  rw [hn]
  by_cases hk1 : k = 1
  · left
    have hvalue : d.value k = d.s := by simp [Decimal.value, hn, hk1]
    rw [hvalue, Binary64.round_natCast (by have := hs hk1; omega)] at hround
    exact ⟨d.s, hs hk1, hround.symm, by simp [hk1, Nat.toDigits_of_lt_base (hs hk1)]⟩
  · right
    rw [if_neg (by omega), if_pos (by omega)]
    simp

end Unit

end JsNumber

end RocketMQClient.Js
