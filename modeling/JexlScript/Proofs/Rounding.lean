import JexlScript.Number.Double
import Mathlib.Algebra.Order.Field.Power
import Mathlib.Algebra.Order.Field.Rat
import Mathlib.Tactic.FieldSimp
import Mathlib.Tactic.Linarith
import Mathlib.Tactic.Positivity

/-!
# Rounding to doubles

`Double.ofRatio` rounds a quotient to the nearest double. All quotients of the
interval around a double, which ends half a step above it and half a step below,
give that double back. Below a power of two the steps are half as wide, and the
ends belong to the interval where the significand is even.
-/

namespace JexlScript.Double

/-! ## The bits of finite doubles -/

/-- The significands and exponents that finite doubles have. -/
structure Canonical (m : Nat) (e : Int) : Prop where
  small : m < 2 ^ 53
  least : -1074 ≤ e
  most : e ≤ 971
  normal : e = -1074 ∨ 2 ^ 52 ≤ m

/-- The bits of a finite double other than its sign. -/
def magnitudeOf (m : Nat) (e : Int) : Nat := (e + 1074).toNat * 2 ^ 52 + m

/-- The sign and the magnitude are kept apart in the bits. -/
theorem signBit_ofMagnitude {negative : Bool} {n : Nat} (h : n < 2 ^ 63) :
    (ofMagnitude negative n).signBit = negative ∧ (ofMagnitude negative n).magnitude = n := by
  rw [signBit, magnitude, ofMagnitude]
  cases negative <;> simp only [UInt64.toNat_ofNat', if_true, Bool.false_eq_true, if_false] <;>
    constructor <;> simp <;> omega

theorem ofMagnitude_magnitude (d : Double) : ofMagnitude d.signBit d.magnitude = d := by
  obtain ⟨bits⟩ := d
  have bound : bits.toNat < 2 ^ 64 := bits.toNat_lt
  show (⟨UInt64.ofNat ((if decide (2 ^ 63 ≤ bits.toNat) then 2 ^ 63 else 0) +
    bits.toNat % 2 ^ 63)⟩ : Double) = ⟨bits⟩
  rw [Double.mk.injEq, ← UInt64.toNat_inj, UInt64.toNat_ofNat']
  by_cases h : 2 ^ 63 ≤ bits.toNat
  · rw [if_pos (decide_eq_true h)]
    omega
  · rw [if_neg (by simpa using h)]
    omega

/-- A finite double is made from its significand and exponent, which are canonical. -/
theorem eq_ofMagnitude_of_shape {d : Double} {negative : Bool} {m : Nat} {e : Int}
    (h : d.shape = .finite negative m e) :
    Canonical m e ∧ d.signBit = negative ∧ d = ofMagnitude negative (magnitudeOf m e) := by
  have bound : d.magnitude < 2 ^ 63 := Nat.mod_lt _ (by decide)
  have whole := ofMagnitude_magnitude d
  rw [shape] at h
  generalize d.magnitude = bits at h bound whole
  split at h
  · split at h <;> exact absurd h (by simp)
  · split at h
    · obtain ⟨rfl, rfl, rfl⟩ := Shape.finite.inj h
      refine ⟨⟨by omega, by decide, by decide, .inl rfl⟩, rfl, ?_⟩
      rw [magnitudeOf, show ((-1074 : Int) + 1074).toNat * 2 ^ 52 + bits % 2 ^ 52 = bits by omega,
        whole]
    · obtain ⟨rfl, rfl, rfl⟩ := Shape.finite.inj h
      refine ⟨⟨by omega, by omega, by omega, .inr (by omega)⟩, rfl, ?_⟩
      rw [magnitudeOf, show (((bits / 2 ^ 52 : Nat) : Int) - 1075 + 1074).toNat * 2 ^ 52 +
        (bits % 2 ^ 52 + 2 ^ 52) = bits by omega, whole]

/-- Canonical parts make up a finite double. -/
theorem Canonical.magnitudeOf_lt {m : Nat} {e : Int} (h : Canonical m e) :
    magnitudeOf m e < infiniteMagnitude := by
  obtain ⟨small, least, most, _⟩ := h
  rw [magnitudeOf, infiniteMagnitude]
  omega

/-- They are the parts of the double that is made from them. -/
theorem shape_ofMagnitude {m : Nat} {e : Int} (h : Canonical m e) (negative : Bool) :
    (ofMagnitude negative (magnitudeOf m e)).shape = .finite negative m e := by
  have lt := h.magnitudeOf_lt
  have lt63 : magnitudeOf m e < 2 ^ 63 := Nat.lt_trans lt (by decide)
  obtain ⟨small, least, most, normal⟩ := h
  obtain ⟨sign, bits⟩ := @signBit_ofMagnitude negative _ lt63
  rw [shape, sign, bits]
  rw [magnitudeOf, infiniteMagnitude] at *
  rw [if_neg (by omega)]
  split
  · rw [Shape.finite.injEq]
    exact ⟨rfl, by omega, by omega⟩
  · rw [Shape.finite.injEq]
    exact ⟨rfl, by omega, by omega⟩

/-! ## Rounding to naturals -/

/-- A quotient within one half of a number is rounded to it, at a distance of one half if it is
even. -/
theorem roundedQuotient_eq {n d m : Nat} (pos : 0 < d) (lower : 2 * m * d ≤ 2 * n + d)
    (upper : 2 * n ≤ (2 * m + 1) * d)
    (tie : 2 * m * d = 2 * n + d ∨ 2 * n = (2 * m + 1) * d → m % 2 = 0) :
    roundedQuotient n d = m := by
  have parts : n = n / d * d + n % d := (Nat.div_add_mod' n d).symm
  have rest : n % d < d := Nat.mod_lt n pos
  rw [roundedQuotient]
  generalize n / d = q at *
  generalize n % d = r at *
  subst parts
  -- The quotient lies between the two naturals next to it, so one of them is `m`.
  have atMost : q ≤ m := by
    by_contra h
    have := Nat.mul_le_mul_right d (Nat.succ_le_of_lt (Nat.lt_of_not_le h))
    rw [Nat.succ_mul] at this
    linarith
  have atLeast : m ≤ q + 1 := by
    by_contra h
    have := Nat.mul_le_mul_right d (Nat.succ_le_of_lt (Nat.lt_of_not_le h))
    rw [Nat.succ_mul, Nat.succ_mul] at this
    linarith
  rcases Nat.lt_or_eq_of_le atMost with lt | rfl
  · obtain rfl : m = q + 1 := by omega
    rw [if_neg (by linarith)]
    split
    · rfl
    · have half : 2 * r = d := by
        have : d ≤ 2 * r := by linarith
        omega
      have even := tie (.inl (by linarith))
      omega
  · split
    · rfl
    · rw [if_neg (by linarith)]
      have half : 2 * r = d := by
        have : 2 * r ≤ d := by linarith
        omega
      have even := tie (.inr (by linarith))
      omega

/-! ## The exponent of a quotient -/

/-- Scaling divides a quotient by a power of two. -/
theorem scaleRatio_spec {num den : Nat} (pos : 0 < den) (e : Int) :
    0 < (scaleRatio num den e).2 ∧
      ((scaleRatio num den e).1 : ℚ) / (scaleRatio num den e).2 = num / den / 2 ^ e := by
  rw [scaleRatio]
  split
  · rename_i nonneg
    obtain ⟨k, rfl⟩ := Int.eq_ofNat_of_zero_le nonneg
    refine ⟨Nat.mul_pos pos (by positivity), ?_⟩
    simp only [Int.toNat_natCast, Nat.cast_mul, Nat.cast_pow, Nat.cast_ofNat, zpow_natCast]
    rw [div_div]
  · rename_i neg
    obtain ⟨k, hk⟩ := Int.eq_ofNat_of_zero_le (show 0 ≤ -e by omega)
    refine ⟨pos, ?_⟩
    rw [hk, show e = -(k : Int) by omega, zpow_neg, zpow_natCast]
    simp only [Int.toNat_natCast, Nat.cast_mul, Nat.cast_pow, Nat.cast_ofNat]
    rw [div_inv_eq_mul, mul_div_right_comm]

theorem pow_mul_zpow (n : Nat) (e : Int) : (2 : ℚ) ^ n * 2 ^ e = 2 ^ (n + e) := by
  rw [zpow_add₀ two_ne_zero, zpow_natCast]

/-- A quotient is within a factor of two of the power that the logarithms of its terms tell. -/
theorem log2_bounds {num den : Nat} (hn : num ≠ 0) (hd : den ≠ 0) :
    (2 : ℚ) ^ ((num.log2 : Int) - den.log2 - 1) < num / den ∧
      (num / den : ℚ) < 2 ^ ((num.log2 : Int) - den.log2 + 1) := by
  have numLow : (2 : ℚ) ^ num.log2 ≤ num := by exact_mod_cast Nat.log2_self_le hn
  have numHigh : (num : ℚ) < 2 ^ (num.log2 + 1) := by exact_mod_cast Nat.lt_log2_self
  have denLow : (2 : ℚ) ^ den.log2 ≤ den := by exact_mod_cast Nat.log2_self_le hd
  have denHigh : (den : ℚ) < 2 ^ (den.log2 + 1) := by exact_mod_cast Nat.lt_log2_self
  have denPos : (0 : ℚ) < den := by exact_mod_cast Nat.pos_of_ne_zero hd
  constructor
  · rw [lt_div_iff₀ denPos, zpow_sub_one₀ two_ne_zero, zpow_sub₀ two_ne_zero, zpow_natCast,
      zpow_natCast]
    calc (2 : ℚ) ^ num.log2 / 2 ^ den.log2 * 2⁻¹ * den
        < 2 ^ num.log2 / 2 ^ den.log2 * 2⁻¹ * 2 ^ (den.log2 + 1) := by gcongr
      _ = 2 ^ num.log2 := by rw [pow_succ]; field_simp
      _ ≤ num := numLow
  · rw [div_lt_iff₀ denPos, zpow_add_one₀ two_ne_zero, zpow_sub₀ two_ne_zero, zpow_natCast,
      zpow_natCast]
    calc (num : ℚ) < 2 ^ (num.log2 + 1) := numHigh
      _ = 2 ^ num.log2 / 2 ^ den.log2 * 2 * 2 ^ den.log2 := by rw [pow_succ]; field_simp
      _ ≤ 2 ^ num.log2 / 2 ^ den.log2 * 2 * den := by gcongr

/-- The exponent that a quotient is rounded at: there the quotient takes up
fifty-three bits, or fewer where there are no smaller exponents. -/
structure RoundsAt (x : ℚ) (e : Int) : Prop where
  least : -1074 ≤ e
  below : x < 2 ^ 53 * 2 ^ e
  above : e = -1074 ∨ 2 ^ 52 * 2 ^ e ≤ x

/-- A quotient is rounded at the exponent where it fits, and what is too large becomes infinite. -/
theorem ofRatio_spec {num den : Nat} (hn : num ≠ 0) (hd : den ≠ 0) (negative : Bool) :
    ∃ e, RoundsAt (num / den) e ∧ ofRatio negative num den = ofMagnitude negative
      (min (magnitudeOf (roundedQuotient (scaleRatio num den e).1 (scaleRatio num den e).2) e)
        infiniteMagnitude) := by
  obtain ⟨low, high⟩ := log2_bounds hn hd
  have pos := Nat.pos_of_ne_zero hd
  rw [ofRatio, if_neg hn, if_neg hd]
  -- At this exponent the quotient has 53 or 54 binary digits, and with 54 the next one is taken.
  generalize hlowest : max (-1074) ((num.log2 : Int) - den.log2 - 53) = lowest
  have wide : (2 : ℚ) ^ 53 ≤ num / den / 2 ^ lowest ↔
      2 ^ 53 ≤ (scaleRatio num den lowest).1 / (scaleRatio num den lowest).2 := by
    obtain ⟨pos', value⟩ := @scaleRatio_spec num den pos lowest
    have posQ : (0 : ℚ) < (scaleRatio num den lowest).2 := by exact_mod_cast pos'
    rw [← value, le_div_iff₀ posQ, Nat.le_div_iff_mul_le pos']
    exact_mod_cast Iff.rfl
  have step : (0 : ℚ) < 2 ^ lowest := by positivity
  rw [le_div_iff₀ step] at wide
  by_cases h : 2 ^ 53 ≤ (scaleRatio num den lowest).1 / (scaleRatio num den lowest).2
  · refine ⟨lowest + 1, ⟨by omega, ?_, .inr ?_⟩, ?_⟩
    · rw [pow_mul_zpow]
      exact lt_of_lt_of_le high (zpow_le_zpow_right₀ one_le_two (by omega))
    · have := wide.mpr h
      rw [zpow_add_one₀ two_ne_zero]
      linarith
    · simp only [h, if_true, magnitudeOf]
  · refine ⟨lowest, ⟨by omega, not_le.mp fun hw => h (wide.mp hw), ?_⟩, ?_⟩
    · by_cases floor : lowest = -1074
      · exact .inl floor
      · refine .inr (le_of_lt (lt_of_le_of_lt ?_ low))
        rw [pow_mul_zpow]
        exact zpow_le_zpow_right₀ one_le_two (by omega)
    · simp only [h, if_false, magnitudeOf]

/-! ## The interval of a double -/

/-- Half the way to the next double below, in steps of the exponent. At a power of two it is a
quarter. -/
def halfStepBelow (m : Nat) (e : Int) : ℚ := if m = 2 ^ 52 ∧ -1074 < e then 1 / 4 else 1 / 2

theorem halfStepBelow_bounds (m : Nat) (e : Int) :
    0 < halfStepBelow m e ∧ halfStepBelow m e ≤ 1 / 2 := by
  rw [halfStepBelow]
  split <;> norm_num

/-- The quotients that round to `m * 2 ^ e`. -/
structure InInterval (m : Nat) (e : Int) (x : ℚ) : Prop where
  lower : (m - halfStepBelow m e) * 2 ^ e ≤ x
  upper : x ≤ (m + 1 / 2) * 2 ^ e
  tie : x = (m - halfStepBelow m e) * 2 ^ e ∨ x = (m + 1 / 2) * 2 ^ e → m % 2 = 0

/-- A double is in its own interval. -/
theorem inInterval_self (m : Nat) (e : Int) : InInterval m e (m * 2 ^ e) := by
  have step : (0 : ℚ) < 2 ^ e := by positivity
  have half := (halfStepBelow_bounds m e).1
  refine ⟨by gcongr; linarith, by gcongr; linarith, ?_⟩
  rintro (h | h)
  · have := mul_right_cancel₀ step.ne' h
    linarith
  · have := mul_right_cancel₀ step.ne' h
    linarith

theorem InInterval.pos {m : Nat} {e : Int} {x : ℚ} (h : InInterval m e x) (pos : 0 < m) :
    0 < x := by
  have half := (halfStepBelow_bounds m e).2
  have one : (1 : ℚ) ≤ m := by exact_mod_cast pos
  exact lt_of_lt_of_le (mul_pos (by linarith) (by positivity)) h.lower

/-- Whatever is between a double and a number of its interval is in the interval. -/
theorem InInterval.between {m : Nat} {e : Int} {x y : ℚ} (h : InInterval m e y)
    (between : y ≤ x ∧ x ≤ m * 2 ^ e ∨ m * 2 ^ e ≤ x ∧ x ≤ y) : InInterval m e x := by
  have self := inInterval_self m e
  rcases between with ⟨above, below⟩ | ⟨above, below⟩
  · refine ⟨h.lower.trans above, below.trans self.upper, ?_⟩
    rintro (eq | eq)
    · exact h.tie (.inl (le_antisymm (eq ▸ above) h.lower))
    · exact self.tie (.inr (le_antisymm self.upper (eq ▸ below)))
  · refine ⟨self.lower.trans above, below.trans h.upper, ?_⟩
    rintro (eq | eq)
    · exact self.tie (.inl (le_antisymm (eq ▸ above) self.lower))
    · exact h.tie (.inr (le_antisymm h.upper (eq ▸ below)))

/-- The rounding of a scaled quotient, told by the quotient. -/
theorem roundedQuotient_scaleRatio {num den m : Nat} {e : Int} (pos : 0 < den)
    (lower : ((m : ℚ) - 1 / 2) * 2 ^ e ≤ num / den) (upper : (num / den : ℚ) ≤ (m + 1 / 2) * 2 ^ e)
    (tie : (num / den : ℚ) = (m - 1 / 2) * 2 ^ e ∨ (num / den : ℚ) = (m + 1 / 2) * 2 ^ e →
      m % 2 = 0) :
    roundedQuotient (scaleRatio num den e).1 (scaleRatio num den e).2 = m := by
  obtain ⟨pos', value⟩ := @scaleRatio_spec num den pos e
  have step : (0 : ℚ) < 2 ^ e := by positivity
  have posQ : (0 : ℚ) < (scaleRatio num den e).2 := by exact_mod_cast pos'
  -- Dividing by the step turns the bounds into those of a rounded quotient.
  have lower' := (le_div_iff₀ step).mpr lower
  have upper' := (div_le_iff₀ step).mpr upper
  have tie' : (num / den / 2 ^ e : ℚ) = m - 1 / 2 ∨ (num / den / 2 ^ e : ℚ) = m + 1 / 2 →
      m % 2 = 0 := by
    rw [div_eq_iff step.ne', div_eq_iff step.ne']
    exact tie
  rw [← value] at lower' upper' tie'
  generalize (scaleRatio num den e).1 = n at *
  generalize (scaleRatio num den e).2 = d at *
  rw [le_div_iff₀ posQ] at lower'
  rw [div_le_iff₀ posQ] at upper'
  rw [div_eq_iff posQ.ne', div_eq_iff posQ.ne'] at tie'
  refine roundedQuotient_eq pos' ?_ ?_ fun h => tie' ?_
  · have : (2 * m * d : ℚ) ≤ 2 * n + d := by linarith
    exact_mod_cast this
  · have : (2 * n : ℚ) ≤ (2 * m + 1) * d := by linarith
    exact_mod_cast this
  · rcases h with h | h
    · have : (2 * m * d : ℚ) = 2 * n + d := by exact_mod_cast h
      exact .inl (by linarith)
    · have : (2 * n : ℚ) = (2 * m + 1) * d := by exact_mod_cast h
      exact .inr (by linarith)

/-- A quotient is rounded at one exponent only. -/
theorem RoundsAt.le {x : ℚ} {e e' : Int} (h : RoundsAt x e) (h' : RoundsAt x e') : e' ≤ e := by
  by_contra lt
  rcases h'.above with floor | above
  · have := h.least
    omega
  · have chain : (2 : ℚ) ^ (52 + e') < 2 ^ (53 + e) := by
      have := lt_of_le_of_lt above h.below
      rwa [pow_mul_zpow, pow_mul_zpow] at this
    have := (zpow_lt_zpow_iff_right₀ one_lt_two).mp chain
    omega

/-- All quotients of the interval of a double are rounded to it. -/
theorem ofRatio_eq_of_inInterval {num den m : Nat} {e : Int} (canonical : Canonical m e)
    (pos : 0 < m) (hd : den ≠ 0) (h : InInterval m e (num / den)) (negative : Bool) :
    ofRatio negative num den = ofMagnitude negative (magnitudeOf m e) := by
  have step : (0 : ℚ) < 2 ^ e := by positivity
  have small : (m : ℚ) + 1 ≤ 2 ^ 53 := by exact_mod_cast canonical.small
  have denPos := Nat.pos_of_ne_zero hd
  have half := (halfStepBelow_bounds m e).2
  have hn : num ≠ 0 := by
    rintro rfl
    exact absurd (h.pos pos) (by simp)
  obtain ⟨e', at', eq⟩ := ofRatio_spec hn hd negative
  rw [eq]
  congr 1
  suffices same : magnitudeOf (roundedQuotient (scaleRatio num den e').1 (scaleRatio num den e').2)
      e' = magnitudeOf m e by
    rw [same]
    exact min_eq_left (Nat.le_of_lt canonical.magnitudeOf_lt)
  by_cases inside : e = -1074 ∨ (2 : ℚ) ^ 52 * 2 ^ e ≤ num / den
  · -- The quotient has the exponent of the double.
    have here : RoundsAt (num / den) e := by
      refine ⟨canonical.least, lt_of_le_of_lt h.upper ?_, inside⟩
      exact mul_lt_mul_of_pos_right (by linarith) step
    obtain rfl := Int.le_antisymm (here.le at') (at'.le here)
    rw [roundedQuotient_scaleRatio denPos ?_ h.upper ?_]
    · refine le_trans ?_ h.lower
      exact mul_le_mul_of_nonneg_right (by linarith) step.le
    · rintro (eq | eq)
      · refine h.tie (.inl (le_antisymm ?_ h.lower))
        rw [eq]
        exact mul_le_mul_of_nonneg_right (by linarith) step.le
      · exact h.tie (.inr eq)
  · -- It lies below the power of two that the double is, where steps are half as wide.
    rw [not_or, not_le] at inside
    obtain ⟨notLeast, below⟩ := inside
    have big : 2 ^ 52 ≤ m := canonical.normal.resolve_left notLeast
    have least := canonical.least
    have power : m = 2 ^ 52 := by
      have lt := lt_of_mul_lt_mul_right (lt_of_le_of_lt h.lower below) step.le
      have : (m : ℚ) < 2 ^ 52 + 1 := by linarith
      have : m < 2 ^ 52 + 1 := by exact_mod_cast this
      omega
    have lower := h.lower
    rw [halfStepBelow, if_pos ⟨power, by omega⟩, power] at lower
    have halves : (2 : ℚ) ^ e = 2 ^ (e - 1) * 2 := by
      rw [← zpow_add_one₀ two_ne_zero, Int.sub_add_cancel]
    rw [halves] at lower below step
    have here : RoundsAt (num / den) (e - 1) := by
      refine ⟨by omega, ?_, .inr (le_trans ?_ lower)⟩
      · linarith
      · push_cast
        linarith
    obtain rfl := Int.le_antisymm (here.le at') (at'.le here)
    have rounds : roundedQuotient (scaleRatio num den (e - 1)).1 (scaleRatio num den (e - 1)).2 =
        2 ^ 53 := by
      refine roundedQuotient_scaleRatio denPos ?_ ?_ fun _ => by decide
      · push_cast at lower ⊢
        linarith
      · push_cast
        linarith
    rw [rounds, power, magnitudeOf, magnitudeOf]
    omega

end JexlScript.Double
