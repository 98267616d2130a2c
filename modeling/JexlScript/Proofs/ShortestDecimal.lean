import JexlScript.Number.Decimal
import JexlScript.Proofs.Rounding
import Mathlib.Data.List.TakeWhile
import Mathlib.Data.Rat.Floor
import Mathlib.Tactic.IntervalCases
import Mathlib.Tactic.Ring

/-!
# The shortest decimal

`Decimal.shortest` gives a decimal in the interval of the double, so reading it
gives the double back. No decimal there has fewer digits, none of as many is
nearer, and there is only one such decimal. The search never fails: the decimals
of seventeen digits lie closer together than the interval is wide.
-/

namespace JexlScript.Decimal

open List

open Double (Canonical InInterval halfStepBelow)

/-! ## Digits -/

/-- The number that a decimal stands for. -/
def value (d : Decimal) : ℚ :=
  (Nat.ofDigitChars 10 d.digits 0 : ℚ) * 10 ^ (d.point - d.digits.length)

/-- Digits of a positive number, the first of which is not zero. -/
structure Proper (ds : List Char) : Prop where
  digits : ∀ c ∈ ds, c.isDigit = true
  head : ∃ c cs, ds = c :: cs ∧ c ≠ '0'

theorem width_spec {n : Nat} (pos : 0 < n) : 10 ^ (width n - 1) ≤ n ∧ n < 10 ^ width n := by
  have nonempty : 0 < width n := Nat.length_toDigits_pos
  refine ⟨?_, (Nat.length_toDigits_le_iff (by decide) nonempty).mp (Nat.le_refl _)⟩
  by_contra lt
  rw [Nat.not_le] at lt
  by_cases one : width n - 1 = 0
  · rw [one] at lt
    omega
  · have := (Nat.length_toDigits_le_iff (by decide) (Nat.pos_of_ne_zero one)).mpr lt
    rw [width] at *
    omega

theorem proper_toDigits {n : Nat} (pos : 0 < n) : Proper (Nat.toDigits 10 n) := by
  refine ⟨fun c hc => Nat.isDigit_of_mem_toDigits (by decide) (by decide) hc, ?_⟩
  induction n using Nat.strongRecOn with
  | _ n ih =>
    rw [Nat.toDigits_eq_if (by decide)]
    split
    · rename_i lt
      refine ⟨_, _, rfl, ?_⟩
      interval_cases n <;> decide
    · obtain ⟨c, cs, eq, ne⟩ := ih (n / 10) (by omega) (by omega)
      exact ⟨c, cs ++ [(n % 10).digitChar], by rw [eq, cons_append], ne⟩

theorem dropTrailingZeros_append (ds : List Char) :
    ∃ z, ds = dropTrailingZeros ds ++ List.replicate z '0' := by
  refine ⟨(ds.reverse.takeWhile (· == '0')).length, ?_⟩
  have zeros : ds.reverse.takeWhile (· == '0') =
      List.replicate (ds.reverse.takeWhile (· == '0')).length '0' := by
    refine eq_replicate_of_mem fun c hc => ?_
    have := mem_takeWhile_imp hc
    simpa using this
  rw [dropTrailingZeros, ← reverse_inj, reverse_append, reverse_reverse,
    reverse_replicate, ← zeros, takeWhile_append_dropWhile]

theorem Proper.dropTrailingZeros {ds : List Char} (h : Proper ds) :
    Proper (Decimal.dropTrailingZeros ds) := by
  obtain ⟨z, parts⟩ := dropTrailingZeros_append ds
  obtain ⟨c, cs, head, ne⟩ := h.head
  refine ⟨fun x hx => h.digits x (parts ▸ mem_append_left _ hx), ?_⟩
  cases kept : Decimal.dropTrailingZeros ds with
  | nil =>
    rw [kept, nil_append, head] at parts
    have : c ∈ List.replicate z '0' := parts ▸ mem_cons_self
    exact absurd (eq_of_mem_replicate this) ne
  | cons d ds' =>
    rw [kept, head, cons_append, List.cons.injEq] at parts
    exact ⟨d, ds', rfl, parts.1 ▸ ne⟩

/-- The decimal of a number times a power of ten stands for it. -/
theorem ofNat_spec {n : Nat} (pos : 0 < n) (exponent : Int) :
    Proper (ofNat n exponent).digits ∧ (ofNat n exponent).value = n * 10 ^ exponent := by
  refine ⟨(proper_toDigits pos).dropTrailingZeros, ?_⟩
  obtain ⟨z, parts⟩ := dropTrailingZeros_append (Nat.toDigits 10 n)
  have digits := congrArg (Nat.ofDigitChars 10 · 0) parts
  have lengths := congrArg List.length parts
  simp only [Nat.ofDigitChars_ten_toDigits, Nat.ofDigitChars_append,
    Nat.ofDigitChars_replicate_zero, length_append, length_replicate] at digits lengths
  rw [value, ofNat]
  dsimp only
  rw [show ((Nat.toDigits 10 n).length + exponent - (dropTrailingZeros (Nat.toDigits 10 n)).length :
    Int) = z + exponent by omega, zpow_add₀ (by norm_num), zpow_natCast]
  nth_rewrite 2 [digits]
  push_cast
  ring

theorem getLast?_ofNat (n : Nat) (exponent : Int) : (ofNat n exponent).digits.getLast? ≠ some '0' := by
  rw [ofNat, dropTrailingZeros, getLast?_reverse]
  intro zero
  have := head?_dropWhile_not (· == '0') (Nat.toDigits 10 n).reverse
  rw [zero] at this
  exact absurd this (by decide)

theorem ofNat_mul_pow {n : Nat} (pos : 0 < n) (i : Nat) (exponent : Int) :
    ofNat (n * 10 ^ i) exponent = ofNat n (exponent + i) := by
  induction i generalizing exponent with
  | zero => simp
  | succ i ih =>
    have digits := Nat.toDigits_append_toDigits (b := 10) (n := n * 10 ^ i) (d := 0) (by decide)
      (by positivity) (by decide)
    have tenfold : ofNat (10 * (n * 10 ^ i) + 0) exponent = ofNat (n * 10 ^ i) (exponent + 1) := by
      rw [ofNat, ← digits, ofNat, dropTrailingZeros, reverse_append]
      simp [dropTrailingZeros, add_assoc, add_comm]
    rw [show n * 10 ^ (i + 1) = 10 * (n * 10 ^ i) + 0 by ring, tenfold, ih]
    congr 1
    push_cast
    ring

/-- There is one such decimal for each number. -/
theorem ofNat_congr {c n : Nat} {x y : Int} (cpos : 0 < c) (npos : 0 < n)
    (same : (c * 10 ^ x : ℚ) = n * 10 ^ y) : ofNat c x = ofNat n y := by
  wlog le : x ≤ y generalizing c n x y
  · exact (this npos cpos same.symm (by omega)).symm
  obtain ⟨i, rfl⟩ := Int.le.dest le
  rw [zpow_add₀ (by norm_num), zpow_natCast, mul_left_comm, mul_comm (c : ℚ)] at same
  obtain rfl : c = n * 10 ^ i := by exact_mod_cast mul_left_cancel₀ (by positivity) same
  exact ofNat_mul_pow npos i x

/-! ## Candidates in the interval -/

theorem toNat_pow (b : Nat) (pos : 0 < b) (k : Int) :
    ((b ^ k.toNat : Nat) : ℚ) = (b : ℚ) ^ k * ((b ^ (-k).toNat : Nat) : ℚ) := by
  have ne : (b : ℚ) ≠ 0 := by exact_mod_cast pos.ne'
  rcases Int.le_total 0 k with nonneg | nonpos
  · obtain ⟨n, rfl⟩ := Int.eq_ofNat_of_zero_le nonneg
    rw [show (-(n : Int)).toNat = 0 by omega, pow_zero, Int.toNat_natCast, zpow_natCast]
    push_cast
    ring
  · obtain ⟨n, hn⟩ := Int.eq_ofNat_of_zero_le (show 0 ≤ -k by omega)
    obtain rfl : k = -(n : Int) := by omega
    rw [show (-(n : Int)).toNat = 0 by omega, neg_neg, Int.toNat_natCast, zpow_neg, zpow_natCast]
    push_cast
    rw [inv_mul_cancel₀ (pow_ne_zero _ ne)]
    norm_num

section

variable {m : Nat} {e : Int}

theorem roundingInterval_den_pos : 0 < (roundingInterval m e).den := by
  rw [roundingInterval]
  positivity

theorem roundingInterval_cast (pos : 0 < m) :
    ((roundingInterval m e).value : ℚ) = m * 2 ^ e * (roundingInterval m e).den ∧
    ((roundingInterval m e).lower : ℚ) =
      (m - halfStepBelow m e) * 2 ^ e * (roundingInterval m e).den ∧
    ((roundingInterval m e).upper : ℚ) = (m + 1 / 2) * 2 ^ e * (roundingInterval m e).den := by
  have scale := toNat_pow 2 (by decide) (e - 2)
  rw [neg_sub, zpow_sub₀ (by norm_num)] at scale
  rw [roundingInterval, halfStepBelow]
  dsimp only
  -- Everything is counted in quarters of a step, so that all bounds are natural numbers.
  generalize 2 ^ (e - 2).toNat = s at *
  generalize 2 ^ (2 - e).toNat = d at *
  refine ⟨?_, ?_, ?_⟩
  · push_cast at *
    rw [scale]
    ring
  · by_cases narrow : m = 2 ^ 52 ∧ -1074 < e
    · rw [if_pos narrow, if_pos (by simpa using narrow), Nat.cast_mul, Nat.cast_sub (by omega)]
      push_cast at *
      rw [scale]
      ring
    · rw [if_neg narrow, if_neg (by simpa using narrow), Nat.cast_mul, Nat.cast_sub (by omega)]
      push_cast at *
      rw [scale]
      ring
  · push_cast at *
    rw [scale]
    ring

/-- The test with natural numbers tells whether a decimal is in the interval. -/
theorem contains_iff {unitNum unitDen c : Nat} (pos : 0 < m) (hu : 0 < unitDen) :
    (roundingInterval m e).contains unitNum unitDen c = true ↔
      InInterval m e (c * (unitNum / unitDen)) := by
  obtain ⟨_, lower, upper⟩ := @roundingInterval_cast m e pos
  have den : (0 : ℚ) < (roundingInterval m e).den := by exact_mod_cast roundingInterval_den_pos
  have unit : (0 : ℚ) < unitDen := by exact_mod_cast hu
  have both := mul_pos den unit
  -- All three numbers are scaled by one positive factor, so they compare as they did.
  have low : (((roundingInterval m e).lower * unitDen : Nat) : ℚ) =
      (m - halfStepBelow m e) * 2 ^ e * ((roundingInterval m e).den * unitDen) := by
    push_cast
    rw [lower, mul_assoc]
  have high : (((roundingInterval m e).upper * unitDen : Nat) : ℚ) =
      (m + 1 / 2) * 2 ^ e * ((roundingInterval m e).den * unitDen) := by
    push_cast
    rw [upper, mul_assoc _ _ (unitDen : ℚ)]
  have scaled : ((c * unitNum * (roundingInterval m e).den : Nat) : ℚ) =
      c * (unitNum / unitDen) * ((roundingInterval m e).den * unitDen) := by
    push_cast
    field_simp
  rw [Interval.contains, show (roundingInterval m e).closed = decide (m % 2 = 0) from rfl]
  -- The ends belong to the interval if the significand is even.
  by_cases even : m % 2 = 0
  · rw [decide_eq_true even, if_pos rfl, Bool.and_eq_true, decide_eq_true_eq, decide_eq_true_eq,
      ← @Nat.cast_le ℚ, ← @Nat.cast_le ℚ, low, high, scaled, mul_le_mul_iff_of_pos_right both,
      mul_le_mul_iff_of_pos_right both]
    exact ⟨fun h => ⟨h.1, h.2, fun _ => even⟩, fun h => ⟨h.lower, h.upper⟩⟩
  · rw [decide_eq_false even, if_neg (by simp), Bool.and_eq_true, decide_eq_true_eq,
      decide_eq_true_eq, ← @Nat.cast_lt ℚ, ← @Nat.cast_lt ℚ, low, high, scaled,
      mul_lt_mul_iff_of_pos_right both, mul_lt_mul_iff_of_pos_right both]
    constructor
    · intro h
      refine ⟨h.1.le, h.2.le, ?_⟩
      rintro (eq | eq)
      · exact absurd eq h.1.ne'
      · exact absurd eq h.2.ne
    · intro h
      exact ⟨lt_of_le_of_ne h.lower fun eq => even (h.tie (.inl eq.symm)),
        lt_of_le_of_ne h.upper fun eq => even (h.tie (.inr eq))⟩

end

/-! ## The search -/

/-- The number of digits before the point. -/
theorem ceiling_spec {num den : Nat} (hn : 0 < num) (hd : 0 < den) :
    (10 : ℚ) ^ (ceiling num den - 1) ≤ num / den ∧ (num / den : ℚ) < 10 ^ ceiling num den := by
  have denQ : (0 : ℚ) < den := by exact_mod_cast hd
  rw [ceiling, le_div_iff₀ denQ, div_lt_iff₀ denQ]
  split
  · rename_i le
    -- From 1 on the digits of the whole part are counted, and below it those of the inverse.
    obtain ⟨low, high⟩ := width_spec (Nat.div_pos le hd)
    have wide : 0 < width (num / den) := Nat.length_toDigits_pos
    rw [Nat.le_div_iff_mul_le hd] at low
    rw [Nat.div_lt_iff_lt_mul hd] at high
    rw [show (width (num / den) : Int) - 1 = ((width (num / den) - 1 : Nat) : Int) by omega,
      zpow_natCast, zpow_natCast]
    exact ⟨by exact_mod_cast low, by exact_mod_cast high⟩
  · rename_i lt
    obtain ⟨low, high⟩ := width_spec (Nat.div_pos (Nat.le_of_not_le lt) hn)
    have wide : 0 < width (den / num) := Nat.length_toDigits_pos
    rw [Nat.le_div_iff_mul_le hn] at low
    rw [Nat.div_lt_iff_lt_mul hn] at high
    generalize width (den / num) = w at *
    obtain ⟨w, rfl⟩ := Nat.exists_eq_succ_of_ne_zero wide.ne'
    rw [Nat.succ_sub_one] at *
    have lowQ : (10 ^ w * num : ℚ) ≤ den := by exact_mod_cast low
    have highQ : (den : ℚ) < 10 ^ (w + 1) * num := by exact_mod_cast high
    have unit : (0 : ℚ) < 10 ^ w := by positivity
    dsimp only
    split
    -- An exact power of ten has one digit more than the numbers right below it.
    · rename_i exactly
      have exactQ : (den : ℚ) = num * 10 ^ w := by exact_mod_cast exactly
      rw [show 2 - ((w + 1 : Nat) : Int) = -w + 1 by omega, zpow_add_one₀ (by norm_num),
        add_sub_cancel_right, zpow_neg, zpow_natCast, exactQ]
      have numQ : (0 : ℚ) < num := by exact_mod_cast hn
      field_simp
      norm_num
    · rename_i other
      have strict : (10 ^ w * num : ℚ) < den := by
        refine lt_of_le_of_ne lowQ fun eq => other ?_
        rw [Nat.mul_comm]
        exact_mod_cast eq.symm
      rw [show 1 - ((w + 1 : Nat) : Int) = -w by omega, zpow_sub_one₀ (by norm_num), zpow_neg,
        zpow_natCast, lt_inv_mul_iff₀ unit]
      refine ⟨?_, strict⟩
      rw [mul_assoc, inv_mul_le_iff₀ unit]
      rw [pow_succ] at highQ
      linarith

theorem unit_eq (exponent : Int) :
    ((10 ^ exponent.toNat : Nat) : ℚ) / ((10 ^ (-exponent).toNat : Nat) : ℚ) = 10 ^ exponent := by
  rw [toNat_pow 10 (by decide) exponent, mul_div_cancel_right₀]
  · norm_num
  · positivity

section

variable {m : Nat} {e x : Int} {c : Nat}

theorem pos_of_inInterval (inside : InInterval m e (c * 10 ^ x)) (pos : 0 < m) : 0 < c :=
  Nat.cast_pos.mp (pos_of_mul_pos_left (inside.pos pos) (by positivity))

/-- Of the multiples of a power of ten that round to a double the one nearest to
it, and the even one where its neighbour is as near. -/
structure Nearest (m : Nat) (e x : Int) (c : Nat) : Prop where
  inside : InInterval m e (c * 10 ^ x)
  close : |(c * 10 ^ x - m * 2 ^ e : ℚ)| ≤ 10 ^ x
  nearest : ∀ n : Nat, InInterval m e (n * 10 ^ x) →
    |(c * 10 ^ x - m * 2 ^ e : ℚ)| ≤ |(n * 10 ^ x - m * 2 ^ e : ℚ)|
  even : ∀ n : Nat, InInterval m e (n * 10 ^ x) → n ≠ c →
    |(c * 10 ^ x - m * 2 ^ e : ℚ)| = |(n * 10 ^ x - m * 2 ^ e : ℚ)| →
      c % 2 = 0 ∧ |(n * 10 ^ x - c * 10 ^ x : ℚ)| = 10 ^ x

/-- Whether a double is nearer to the multiple of a power of ten above it than to
the one below, or as near and the one below is odd. -/
def PrefersAbove (m : Nat) (e x : Int) (q : Nat) : Prop :=
  ((2 * q + 1) * 10 ^ x : ℚ) < 2 * (m * 2 ^ e) ∨
    ((2 * q + 1) * 10 ^ x : ℚ) = 2 * (m * 2 ^ e) ∧ q % 2 = 1

theorem between_multiples {v u : ℚ} {q r d : Nat} (step : 0 < u) (rest : r < d)
    (exactly : v * d = ((q * d + r : Nat) : ℚ) * u) :
    q * u ≤ v ∧ v < (q + 1) * u ∧ (d < 2 * r ↔ (2 * q + 1) * u < 2 * v) ∧
      (2 * r = d ↔ (2 * q + 1) * u = 2 * v) := by
  have dQ : (0 : ℚ) < d := by exact_mod_cast Nat.zero_lt_of_lt rest
  have restQ : (r : ℚ) < d := by exact_mod_cast rest
  -- What is left over is a part of the step that is less than one.
  obtain rfl : v = (q + r / d) * u := by
    refine mul_right_cancel₀ dQ.ne' (exactly.trans ?_)
    push_cast
    field_simp
  have above : (d < 2 * r ↔ (1 : ℚ) < 2 * (r / d)) := by
    rw [← mul_div_assoc, one_lt_div dQ]
    exact_mod_cast Iff.rfl
  have half : (2 * r = d ↔ 2 * (r / d) = (1 : ℚ)) := by
    rw [← mul_div_assoc, div_eq_one_iff_eq dQ.ne']
    exact_mod_cast Iff.rfl
  have part : (r / d : ℚ) < 1 := (div_lt_one dQ).mpr restQ
  have nonneg : (0 : ℚ) ≤ r / d := by positivity
  rw [above, half]
  generalize (r / d : ℚ) = t at *
  refine ⟨by nlinarith, by nlinarith, ?_, ?_⟩
  · rw [← mul_assoc, mul_lt_mul_iff_of_pos_right step]
    constructor <;> intro h <;> linarith
  · rw [← mul_assoc, mul_left_inj' step.ne']
    constructor <;> intro h <;> linarith

theorem beyond_multiples (q n : Nat) (x : Int) :
    (n * 10 ^ x : ℚ) ≤ q * 10 ^ x ∨ (q + 1) * 10 ^ x ≤ (n * 10 ^ x : ℚ) := by
  rcases Nat.lt_or_ge q n with lt | le
  · have : (q + 1 : ℚ) ≤ n := by exact_mod_cast lt
    exact .inr (by gcongr)
  · exact .inl (by gcongr)

section

variable {q : Nat} (low : (q * 10 ^ x : ℚ) ≤ m * 2 ^ e) (high : (m * 2 ^ e : ℚ) < (q + 1) * 10 ^ x)

include low high

/-- If the interval has a number beyond two neighbouring multiples, it has the one of them on the
same side, which is as near. -/
theorem exists_neighbour {y : ℚ} (inside : InInterval m e y)
    (beyond : y ≤ q * 10 ^ x ∨ (q + 1) * 10 ^ x ≤ y) :
    ∃ o : Nat, (o = q ∨ o = q + 1) ∧ InInterval m e (o * 10 ^ x) ∧
      |(o * 10 ^ x - m * 2 ^ e : ℚ)| ≤ |y - m * 2 ^ e| ∧
      (|(o * 10 ^ x - m * 2 ^ e : ℚ)| = |y - m * 2 ^ e| → y = o * 10 ^ x) := by
  rcases beyond with below | above
  · refine ⟨q, .inl rfl, inside.between (.inl ⟨below, low⟩), ?_⟩
    rw [abs_of_nonpos (by linarith), abs_of_nonpos (by linarith)]
    exact ⟨by linarith, fun eq => by linarith⟩
  · refine ⟨q + 1, .inr rfl, ?_⟩
    push_cast
    refine ⟨inside.between (.inr ⟨high.le, above⟩), ?_⟩
    rw [abs_of_nonneg (by linarith), abs_of_nonneg (by linarith)]
    exact ⟨by linarith, fun eq => by linarith⟩

/-- So of all multiples in the interval one of the two neighbours is the nearest. -/
theorem nearest_of_neighbours {o : Nat} (two : c = q ∧ o = q + 1 ∨ c = q + 1 ∧ o = q)
    (inside : InInterval m e (c * 10 ^ x))
    (better : InInterval m e (o * 10 ^ x) →
      |(c * 10 ^ x - m * 2 ^ e : ℚ)| ≤ |(o * 10 ^ x - m * 2 ^ e : ℚ)| ∧
        (|(c * 10 ^ x - m * 2 ^ e : ℚ)| = |(o * 10 ^ x - m * 2 ^ e : ℚ)| → c % 2 = 0)) :
    Nearest m e x c := by
  have step : (0 : ℚ) < 10 ^ x := by positivity
  refine ⟨inside, ?_, fun n hn => ?_, fun n hn ne eq => ?_⟩
  · rw [abs_le]
    rcases two with ⟨rfl, _⟩ | ⟨rfl, _⟩ <;> push_cast <;> constructor <;> linarith
  -- Any other multiple in the interval has a neighbour between itself and the double.
  · obtain ⟨p, hp, has, nearer, _⟩ := exists_neighbour low high hn (beyond_multiples q n x)
    by_cases same : p = c
    · rwa [same] at nearer
    · obtain rfl : p = o := by omega
      exact (better has).1.trans nearer
  · obtain ⟨p, hp, has, nearer, same⟩ := exists_neighbour low high hn (beyond_multiples q n x)
    by_cases here : p = c
    · subst here
      have := mul_right_cancel₀ step.ne' (same eq)
      exact absurd (by exact_mod_cast this) ne
    · obtain rfl : p = o := by omega
      have equal := le_antisymm (better has).1 (eq ▸ nearer)
      refine ⟨(better has).2 equal, ?_⟩
      rw [same (equal.symm.trans eq), ← sub_mul, abs_mul, abs_of_pos step]
      rcases two with ⟨rfl, rfl⟩ | ⟨rfl, rfl⟩ <;> norm_num

theorem nearest_above (has : InInterval m e ((q + 1 : Nat) * 10 ^ x))
    (pick : PrefersAbove m e x q ∨ ¬InInterval m e (q * 10 ^ x)) : Nearest m e x (q + 1) := by
  refine nearest_of_neighbours low high (.inr ⟨rfl, rfl⟩) has fun other => ?_
  rw [abs_of_nonpos (by linarith : (q * 10 ^ x - m * 2 ^ e : ℚ) ≤ 0), Nat.cast_add_one,
    abs_of_nonneg (by linarith)]
  rcases pick with (lt | ⟨eq, odd⟩) | no
  · exact ⟨by linarith, fun eq => by linarith⟩
  · exact ⟨by linarith, fun _ => by omega⟩
  · exact absurd other no

theorem nearest_below (has : InInterval m e (q * 10 ^ x))
    (pick : InInterval m e ((q + 1 : Nat) * 10 ^ x) → ¬PrefersAbove m e x q) :
    Nearest m e x q := by
  refine nearest_of_neighbours low high (.inl ⟨rfl, rfl⟩) has fun other => ?_
  have no := pick other
  have notAbove : ¬(2 * q + 1) * (10 : ℚ) ^ x < 2 * (m * 2 ^ e) := fun lt => no (.inl lt)
  rw [abs_of_nonpos (by linarith : (q * 10 ^ x - m * 2 ^ e : ℚ) ≤ 0), Nat.cast_add_one,
    abs_of_nonneg (by linarith)]
  refine ⟨by linarith, fun eq => ?_⟩
  by_contra odd
  exact no (.inr ⟨by linarith, by omega⟩)

end

/-- The search for one number of digits finds the nearest decimal, or there is none. -/
theorem nearest?_spec (pos : 0 < m) (top : Int) (count : Nat) :
    match (roundingInterval m e).nearest? top count with
    | some d => ∃ c, Nearest m e (top - count) c ∧ d = ofNat c (top - count)
    | none => ∀ n : Nat, ¬InInterval m e (n * 10 ^ (top - count)) := by
  have contains (c : Nat) := @contains_iff m e (10 ^ (top - count : Int).toNat)
    (10 ^ (-(top - count : Int)).toNat) c pos (by positivity)
  simp only [unit_eq] at contains
  have unit := toNat_pow 10 (by decide) (top - count)
  have value := (@roundingInterval_cast m e pos).1
  have numPos : 0 < 10 ^ (top - count : Int).toNat := by positivity
  rw [Interval.nearest?]
  -- The units are kept as numbers from here on: only their quotient matters.
  generalize top - (count : Int) = x at *
  generalize 10 ^ x.toNat = unitNum at *
  generalize 10 ^ (-x).toNat = unitDen at *
  have rest := Nat.mod_lt ((roundingInterval m e).value * unitDen)
    (Nat.mul_pos (@roundingInterval_den_pos m e) numPos)
  have parts := Nat.div_add_mod' ((roundingInterval m e).value * unitDen)
    ((roundingInterval m e).den * unitNum)
  -- The division gives the multiple below the double and what is left over.
  have exactly : (m * 2 ^ e : ℚ) * ((roundingInterval m e).den * unitNum : Nat) =
      ((roundingInterval m e).value * unitDen : Nat) * 10 ^ x := by
    push_cast at unit ⊢
    rw [unit, value]
    ring
  rw [← parts] at exactly
  generalize (roundingInterval m e).value * unitDen / ((roundingInterval m e).den * unitNum) =
    q at *
  generalize (roundingInterval m e).value * unitDen % ((roundingInterval m e).den * unitNum) =
    r at *
  obtain ⟨low, high, prefer, tie⟩ := between_multiples (by positivity) rest exactly
  have hasBelow := contains q
  have hasAbove := contains (q + 1)
  generalize (roundingInterval m e).contains unitNum unitDen q = below at *
  generalize (roundingInterval m e).contains unitNum unitDen (q + 1) = above at *
  generalize is : (decide (_ < 2 * r) || decide (2 * r = _) && decide (q % 2 = 1)) = preferred
  have prefers : preferred = true ↔ PrefersAbove m e x q := by
    simp only [← is, Bool.or_eq_true, Bool.and_eq_true, decide_eq_true_eq, prefer, tie,
      PrefersAbove]
  -- The upper neighbour is taken if it is in the interval and preferred, or the only one there.
  by_cases take : (above && (preferred || !below)) = true
  · rw [if_pos take]
    simp only [Bool.and_eq_true, Bool.or_eq_true, Bool.not_eq_true', ← Bool.not_eq_true,
      hasAbove, hasBelow, prefers] at take
    exact ⟨q + 1, nearest_above low high take.1 take.2, rfl⟩
  · rw [if_neg take]
    simp only [Bool.and_eq_true, Bool.or_eq_true, Bool.not_eq_true', ← Bool.not_eq_true,
      hasAbove, hasBelow, prefers] at take
    by_cases has : below = true
    · rw [if_pos has]
      exact ⟨q, nearest_below low high (hasBelow.mp has) fun other better =>
        take ⟨other, .inl better⟩, rfl⟩
    · rw [if_neg has]
      intro n hn
      obtain ⟨o, rfl | rfl, inside, _⟩ := exists_neighbour low high hn (beyond_multiples q n x)
      · exact has (hasBelow.mpr inside)
      · exact take ⟨inside, .inr (mt hasBelow.mpr has)⟩

end

/-! ## The shortest decimal -/

/-- A number has at most some number of digits. -/
def HasDigits (k : Nat) (y : ℚ) : Prop := ∃ (n : Nat) (x : Int), n < 10 ^ k ∧ y = n * 10 ^ x

/-- The shortest decimal that rounds to a double: it has as few digits as
possible, then it is as near as possible, and of two neighbours that are as near
it is the even one. -/
structure Shortest (m : Nat) (e : Int) (k : Nat) (y : ℚ) : Prop where
  inside : InInterval m e y
  digits : HasDigits k y
  fewest : ∀ j z, HasDigits j z → InInterval m e z → k ≤ j
  nearest : ∀ z, HasDigits k z → InInterval m e z → |y - m * 2 ^ e| ≤ |z - m * 2 ^ e|
  even : ∀ z, HasDigits k z → InInterval m e z → z ≠ y → |y - m * 2 ^ e| = |z - m * 2 ^ e| →
    ∃ (n : Nat) (x : Int), n % 2 = 0 ∧ y = n * 10 ^ x ∧ |z - y| = 10 ^ x

/-- There is one shortest decimal. -/
theorem Shortest.unique {m k k' : Nat} {e : Int} {y y' : ℚ} (h : Shortest m e k y)
    (h' : Shortest m e k' y') : y = y' := by
  obtain rfl := Nat.le_antisymm (h.fewest _ _ h'.digits h'.inside) (h'.fewest _ _ h.digits h.inside)
  have distance := le_antisymm (h.nearest _ h'.digits h'.inside) (h'.nearest _ h.digits h.inside)
  by_contra ne
  -- Two of them would be even and neighbours.
  obtain ⟨n, x, even, rfl, gap⟩ := h.even y' h'.digits h'.inside (Ne.symm ne) distance
  obtain ⟨n', x', even', rfl, gap'⟩ := h'.even _ h.digits h.inside ne distance.symm
  obtain rfl : x = x' := zpow_right_injective₀ (by norm_num) (by norm_num)
    (gap.symm.trans ((abs_sub_comm _ _).trans gap'))
  have unit : (0 : ℚ) < 10 ^ x := by positivity
  rw [← sub_mul, abs_mul, abs_of_pos unit, mul_eq_right₀ unit.ne'] at gap
  rcases (abs_eq (by norm_num)).mp gap with one | one
  · have : n' = n + 1 := by exact_mod_cast (by linarith : (n' : ℚ) = n + 1)
    omega
  · have : n = n' + 1 := by exact_mod_cast (by linarith : (n : ℚ) = n' + 1)
    omega

theorem pow_mul_unit (k : Nat) (top : Int) : (10 : ℚ) ^ k * 10 ^ (top - k) = 10 ^ top := by
  rw [← zpow_natCast, ← zpow_add₀ (by norm_num), add_sub_cancel]

section

variable {m k : Nat} {e top : Int}

theorem HasDigits.pos {y : ℚ} (h : HasDigits k y) (inside : InInterval m e y) (pos : 0 < m) :
    0 < k := by
  obtain ⟨n, x, small, rfl⟩ := h
  rcases Nat.eq_zero_or_pos k with rfl | kpos
  · obtain rfl : n = 0 := by omega
    exact absurd (inside.pos pos) (by simp)
  · exact kpos

/-- A number with few digits is not between neighbouring multiples of their unit. -/
theorem HasDigits.beyond {v y : ℚ} {q : Nat} (h : HasDigits k y) (kpos : 0 < k)
    (large : (10 : ℚ) ^ (top - 1) ≤ v) (high : v < (q + 1) * 10 ^ (top - k)) :
    y ≤ q * 10 ^ (top - k) ∨ (q + 1) * 10 ^ (top - k) ≤ y := by
  obtain ⟨n, x, small, rfl⟩ := h
  have unit : (0 : ℚ) < 10 ^ (top - k) := by positivity
  by_cases coarse : top - k ≤ x
  · obtain ⟨i, hi⟩ := Int.eq_ofNat_of_zero_le (sub_nonneg.mpr coarse)
    have : (n * 10 ^ x : ℚ) = (n * 10 ^ i : Nat) * 10 ^ (top - k) := by
      rw [show x = i + (top - k) by omega, zpow_add₀ (by norm_num), zpow_natCast]
      push_cast
      ring
    rw [this]
    exact beyond_multiples q _ _
  · -- On a finer grid the decimal has too few places to reach the first digit of `v`.
    refine .inl ?_
    have first : (10 : ℚ) ^ (top - 1) = (10 ^ (k - 1) : Nat) * 10 ^ (top - k) := by
      rw [Nat.cast_pow, ← zpow_natCast, Nat.cast_ofNat, ← zpow_add₀ (by norm_num)]
      congr 1
      omega
    have reach : (10 ^ (k - 1) : Nat) ≤ q := by
      have : ((10 ^ (k - 1) : Nat) : ℚ) < (q + 1 : Nat) := by
        push_cast
        exact lt_of_mul_lt_mul_right (by push_cast at *; linarith) unit.le
      exact Nat.le_of_lt_succ (by exact_mod_cast this)
    calc (n * 10 ^ x : ℚ) ≤ 10 ^ k * 10 ^ (top - 1 - k) := by
          gcongr
          · exact_mod_cast small.le
          · norm_num
          · omega
      _ = (10 ^ (k - 1) : Nat) * 10 ^ (top - k) := by rw [pow_mul_unit, first]
      _ ≤ q * 10 ^ (top - k) := by gcongr

theorem hasDigits_of_close {v : ℚ} {c : Nat} (kpos : 0 < k) (small : v < 10 ^ top)
    (close : |c * 10 ^ (top - k) - v| ≤ (10 : ℚ) ^ (top - k)) :
    HasDigits k (c * 10 ^ (top - k)) := by
  have bound : c ≤ 10 ^ k := by
    have unit : (0 : ℚ) < 10 ^ (top - k) := by positivity
    rw [← pow_mul_unit k top] at small
    have : (c : ℚ) < 10 ^ k + 1 := by
      refine lt_of_mul_lt_mul_right ?_ unit.le
      linarith [(abs_le.mp close).2]
    exact Nat.le_of_lt_succ (by exact_mod_cast this)
  rcases Nat.lt_or_eq_of_le bound with lt | rfl
  · exact ⟨c, _, lt, rfl⟩
  · refine ⟨1, top, Nat.one_lt_pow kpos.ne' (by decide), ?_⟩
    rw [Nat.cast_pow, Nat.cast_ofNat, pow_mul_unit, Nat.cast_one, one_mul]

theorem exists_multiples {v u : ℚ} (nonneg : 0 ≤ v) (step : 0 < u) :
    ∃ q : Nat, q * u ≤ v ∧ v < (q + 1) * u :=
  ⟨⌊v / u⌋₊, (le_div_iff₀ step).mp (Nat.floor_le (div_nonneg nonneg step.le)),
    (div_lt_iff₀ step).mp (Nat.lt_floor_add_one _)⟩

/-- Decimals of seventeen digits lie closer together than the interval is wide. -/
theorem seventeen_close (canonical : Canonical m e)
    (high : (10 : ℚ) ^ (top - 1) ≤ m * 2 ^ e) :
    (10 : ℚ) ^ (top - (17 : Nat)) < (halfStepBelow m e + 1 / 2) * 2 ^ e := by
  have step : (0 : ℚ) < 2 ^ e := by positivity
  have small : (m : ℚ) < 2 ^ 53 := by exact_mod_cast canonical.small
  have shift : (10 : ℚ) ^ (top - 1) = 10 ^ (top - (17 : Nat)) * 10 ^ 16 := by
    rw [← zpow_natCast, ← zpow_add₀ (by norm_num)]
    congr 1
    push_cast
    ring
  rw [shift] at high
  clear shift
  generalize (10 : ℚ) ^ (top - (17 : Nat)) = unit at *
  generalize (2 : ℚ) ^ e = t at *
  rw [halfStepBelow]
  split
  · rename_i narrow
    rw [narrow.1] at high
    push_cast at high
    linarith
  · have wide : (m : ℚ) * t < 2 ^ 53 * t := mul_lt_mul_of_pos_right small step
    linarith

theorem exists_inInterval_multiple {x : Int}
    (close : (10 : ℚ) ^ x < (halfStepBelow m e + 1 / 2) * 2 ^ e) :
    ∃ n : Nat, InInterval m e (n * 10 ^ x) := by
  have step : (0 : ℚ) < 2 ^ e := by positivity
  have gap := mul_pos (Double.halfStepBelow_bounds m e).1 step
  obtain ⟨q, low, high⟩ := exists_multiples (v := (m * 2 ^ e : ℚ)) (u := 10 ^ x) (by positivity)
    (by positivity)
  by_cases inside : (m - halfStepBelow m e) * 2 ^ e < (q * 10 ^ x : ℚ)
  · refine ⟨q, inside.le, by linarith, ?_⟩
    rintro (eq | eq) <;> linarith
  · refine ⟨q + 1, ?_, ?_, ?_⟩ <;> push_cast
    · linarith
    · linarith
    · rintro (eq | eq) <;> linarith

theorem top_spec (pos : 0 < m) : ∃ top, ceiling (roundingInterval m e).value (roundingInterval m e).den =
    top ∧ (10 : ℚ) ^ (top - 1) ≤ m * 2 ^ e ∧ (m * 2 ^ e : ℚ) < 10 ^ top := by
  have value := (@roundingInterval_cast m e pos).1
  have den : (0 : ℚ) < (roundingInterval m e).den := by exact_mod_cast roundingInterval_den_pos
  have valuePos : (0 : ℚ) < (roundingInterval m e).value := by
    rw [value]
    positivity
  have bounds := ceiling_spec (Nat.cast_pos.mp valuePos) (@roundingInterval_den_pos m e)
  rw [value, mul_div_cancel_right₀ _ den.ne'] at bounds
  exact ⟨_, rfl, bounds⟩

/-- The search ends with the shortest decimal. -/
theorem shortest_spec (canonical : Canonical m e) (pos : 0 < m) :
    ∃ (c : Nat) (x : Int) (k : Nat), shortest m e = ofNat c x ∧ Shortest m e k (c * 10 ^ x) := by
  obtain ⟨top, start, large, small⟩ := @top_spec m e pos
  rw [shortest, start]
  -- A decimal of some digits means that the search succeeds with them.
  have succeeds {j : Nat} {z : ℚ} (digits : HasDigits j z) (inside : InInterval m e z) :
      ∃ o : Nat, InInterval m e (o * 10 ^ (top - j)) ∧
        |(o * 10 ^ (top - j) - m * 2 ^ e : ℚ)| ≤ |z - m * 2 ^ e| ∧
        (|(o * 10 ^ (top - j) - m * 2 ^ e : ℚ)| = |z - m * 2 ^ e| → z = o * 10 ^ (top - j)) := by
    obtain ⟨q, low, high⟩ := exists_multiples (v := (m * 2 ^ e : ℚ)) (u := 10 ^ (top - j))
      (by positivity) (by positivity)
    obtain ⟨o, _, found⟩ := exists_neighbour low high inside
      (digits.beyond (digits.pos inside pos) large high)
    exact ⟨o, found⟩
  split
  · rename_i d found
    obtain ⟨tried, k, rest, range, found, failed⟩ := findSome?_eq_some_iff.mp found
    obtain ⟨i, _, rfl, after⟩ := range'_eq_append_iff.mp range
    obtain ⟨rfl, _⟩ := range'_eq_cons_iff.mp after.symm
    rw [Nat.mul_one] at found
    have here := @nearest?_spec m e pos top (1 + i)
    rw [found] at here
    obtain ⟨c, nearest, rfl⟩ := here
    refine ⟨c, _, 1 + i, rfl, nearest.inside, hasDigits_of_close (by omega) small nearest.close,
      fun j z digits inside => ?_, fun z digits inside => ?_, fun z digits inside ne equal => ?_⟩
    · by_contra fewer
      obtain ⟨o, has, _⟩ := succeeds digits inside
      have before := @nearest?_spec m e pos top j
      have jpos := digits.pos inside pos
      rw [failed j (mem_range'_1.mpr ⟨jpos, by omega⟩)] at before
      exact before o has
    · obtain ⟨o, has, nearer, _⟩ := succeeds digits inside
      exact (nearest.nearest o has).trans nearer
    · obtain ⟨o, has, nearer, same⟩ := succeeds digits inside
      have close := nearest.nearest o has
      obtain rfl := same (le_antisymm nearer (equal ▸ close))
      obtain ⟨even, gap⟩ := nearest.even o has (fun eq => ne (eq ▸ rfl)) equal
      exact ⟨c, _, even, rfl, gap⟩
  · rename_i none
    obtain ⟨n, inside⟩ := exists_inInterval_multiple (seventeen_close canonical large)
    have last := @nearest?_spec m e pos top 17
    rw [findSome?_eq_none_iff.mp none 17 (by simp)] at last
    exact absurd inside (last n)

end

end JexlScript.Decimal
