import JexlScript.Number.Arithmetic
import JexlScript.Proofs.Reading.Lexemes
import JexlScript.Proofs.Respelling

/-!
# Written numbers

Every number is written as a decimal numeral: digits, then perhaps a point with
more digits and an exponent. The lexer takes such a numeral for the double
nearest to it, and that is the double the numeral was written for.
-/

namespace JexlScript.Script.Reading

open List

open Double (Canonical InInterval magnitudeOf ofMagnitude ofRatio)

variable {names : NameClass}
variable {rest : List Char} {v : Scalar} {d : Double} {negative : Bool} {m : Nat} {e : Int}

/-! ## Numerals -/

/-- What follows does not lengthen a number. -/
def EndsNumber (names : NameClass) (rest : List Char) : Prop :=
  ∀ c ∈ rest.head?, names.part c = false ∧ c ≠ '.'

theorem part_of_isDigit {c : Char} (h : c.isDigit = true) : names.part c = true := by
  rw [names.part_ascii c (isDigit_spec h).1]
  simp [Char.isAlphanum, h]

theorem isDigit_of_part {c : Char} (h : names.part c = false) : c.isDigit = false := by
  by_contra digit
  exact Bool.false_ne_true (h.symm.trans (part_of_isDigit (Bool.of_not_eq_false digit)))

/-- A written exponent is read back. -/
theorem exponentPart_text {exponent : Option Int} (stop : EndsNumber names rest) :
    exponentPart (exponentPartText exponent ++ rest) = some (exponent.getD 0, rest) := by
  cases exponent with
  | none =>
    cases rest with
    | nil => rfl
    | cons c cs =>
      -- Both letters of an exponent would go on a name.
      have letter : ¬(c = 'e' ∨ c = 'E') := by
        have part := (stop c rfl).1
        rintro (rfl | rfl) <;> rw [names.part_ascii _ (by decide)] at part <;>
          exact absurd part (by decide)
      simp [exponentPartText, exponentPart, letter]
  | some e =>
    have digits : ∀ c ∈ Nat.toDigits 10 e.natAbs, c.isDigit = true :=
      fun c hc => Nat.isDigit_of_mem_toDigits (by decide) (by decide) hc
    have split := span_append digits fun c hc => isDigit_of_part (stop c hc).1
    have value : Nat.ofDigitChars 10 (Nat.toDigits 10 e.natAbs) 0 = e.natAbs :=
      Nat.ofDigitChars_ten_toDigits
    have nonempty : Nat.toDigits 10 e.natAbs ≠ [] := Nat.toDigits_ne_nil
    have signed : exponentSign (Decimal.exponentText e ++ rest) =
        (decide (e < 0), Nat.toDigits 10 e.natAbs ++ rest) := by
      by_cases sign : 0 ≤ e
      · simp [Decimal.exponentText, exponentSign, sign, Int.not_lt.mpr sign]
      · simp [Decimal.exponentText, exponentSign, sign, Int.not_le.mp sign]
    have abs : (if decide (e < 0) = true then -(e.natAbs : Int) else e.natAbs) = e := by
      split <;> rename_i sign <;> simp only [decide_eq_true_eq] at sign <;> omega
    simp only [exponentPartText, cons_append, exponentPart, true_or, if_true, signed, split,
      value, List.isEmpty_iff, nonempty, if_false, abs, Option.getD_some]

theorem head?_exponentPartText {exponent : Option Int} (stop : EndsNumber names rest) :
    ∀ c ∈ (exponentPartText exponent ++ rest).head?, c.isDigit = false ∧ c ≠ '.' := by
  intro c hc
  cases exponent with
  | none => exact ⟨isDigit_of_part (stop c hc).1, (stop c hc).2⟩
  | some e =>
    simp only [exponentPartText, cons_append, head?_cons, Option.mem_def,
      Option.some.injEq] at hc
    subst hc
    decide

/-- Written digits behind a point are read back. -/
theorem fractionPart_text {fraction rest : List Char} (digits : ∀ c ∈ fraction, c.isDigit = true)
    (stop : ∀ c ∈ rest.head?, c.isDigit = false ∧ c ≠ '.') :
    fractionPart (fractionText fraction ++ rest) = (fraction, rest) := by
  cases fraction with
  | nil =>
    cases rest with
    | nil => rfl
    | cons c cs =>
      have point := (stop c rfl).2
      simp only [fractionText, nil_append]
      rw [fractionPart]
      simp [point]
  | cons c cs => exact span_append digits fun c hc => (stop c hc).1

/-- A numeral starts with a digit. -/
theorem Numeral.text_head (n : Numeral) : ∃ c cs, n.text = c :: cs ∧ c.isDigit = true := by
  obtain ⟨c, cs, head⟩ := exists_cons_of_ne_nil n.nonempty
  exact ⟨c, cs ++ (fractionText n.fraction ++ exponentPartText n.exponent), by simp [text, head],
    n.whole_digits c (by simp [head])⟩

/-- A numeral is one token, of the double nearest to it. -/
theorem Numeral.lexes (n : Numeral) (stop : EndsNumber names rest) :
    Lexes names n.text [.number (decimalValue n.coefficient n.power)] rest := by
  have tail := @head?_exponentPartText names rest n.exponent stop
  -- The digits before the point end there, or at the exponent.
  have point : ∀ c ∈ (fractionText n.fraction ++ (exponentPartText n.exponent ++ rest)).head?,
      c.isDigit = false := by
    intro c hc
    cases h : n.fraction with
    | nil =>
      rw [h] at hc
      exact (tail c hc).1
    | cons d ds =>
      rw [h] at hc
      simp only [fractionText, cons_append, head?_cons, Option.mem_def,
        Option.some.injEq] at hc
      subst hc
      decide
  have split := span_append n.whole_digits point
  have next : rest.head?.any names.part = false := by
    cases rest with
    | nil => rfl
    | cons c cs => exact (stop c rfl).1
  have read : numeral names (n.text ++ rest) =
      some (.number (decimalValue n.coefficient n.power), rest) := by
    rw [numeral, text, append_assoc, append_assoc, split]
    simp only [n.leading, if_false, fractionPart_text n.fraction_digits tail,
      exponentPart_text stop, Option.bind_eq_bind, Option.bind_some, next, Bool.false_eq_true]
    rfl
  obtain ⟨c, cs, head, digit⟩ := n.text_head
  obtain ⟨plain, other, visible⟩ := isDigit_spec digit
  have start : names.start c = false := (names.start_ascii c plain).trans other
  rw [head] at read ⊢
  refine Lexes.of_token visible ?_
  rw [← read]
  unfold token
  simp [start, digit]

/-! ## Doubles -/

/-- A decimal in the interval of a double is read as this double. -/
theorem decimalValue_eq {m n : Nat} {e x : Int} (canonical : Canonical m e) (pos : 0 < m)
    (h : InInterval m e (n * 10 ^ x)) : decimalValue n x = ofMagnitude false (magnitudeOf m e) := by
  unfold decimalValue
  split
  case isTrue nonneg =>
    apply Double.ofRatio_eq_of_inInterval canonical pos one_ne_zero
    obtain ⟨k, rfl⟩ := Int.eq_ofNat_of_zero_le nonneg
    simpa using h
  case isFalse negative =>
    apply Double.ofRatio_eq_of_inInterval canonical pos (by positivity)
    obtain ⟨k, rfl⟩ := Int.exists_eq_neg_ofNat (by omega : x ≤ 0)
    simpa [div_eq_mul_inv] using h

/-- The numeral of a natural number. -/
def Numeral.ofNat (n : Nat) : Numeral where
  whole := Nat.toDigits 10 n
  fraction := []
  exponent := none
  whole_digits := fun c hc => Nat.isDigit_of_mem_toDigits (by decide) (by decide) hc
  fraction_digits := by simp
  nonempty := Nat.toDigits_ne_nil
  leading := by
    rcases Nat.eq_zero_or_pos n with rfl | pos
    · decide
    · obtain ⟨c, cs, head, nonzero⟩ := (Decimal.proper_toDigits pos).head
      simp [head, nonzero]

/-- A numeral with its sign. -/
def signed (negative : Bool) (text : List Char) : List Char :=
  if negative then '-' :: text else text

/-- Whether a number is written with a minus. The negative zero is not. -/
def hasMinus : Scalar → Bool
  | .int n => n < 0
  | .double d => d.signBit && !d.isZero
  | _ => false

/-- The double that is written behind the sign. -/
def absolute : Scalar → Double
  | .int n => ofRatio false n.natAbs 1
  | .double d => ofMagnitude false d.magnitude
  | _ => Double.zero

/-- Whether a number is written for itself: an integer that is a double, or a finite double. -/
def isExact : Scalar → Bool
  | .int n => n.natAbs < 2 ^ 53
  | .double d => d.units?.isSome
  | _ => true

theorem exists_shape_of_units? (h : d.units?.isSome = true) :
    ∃ negative m e, d.shape = .finite negative m e := by
  rw [Double.units?] at h
  split at h
  case h_1 negative m e finite => exact ⟨negative, m, e, finite⟩
  case h_2 => exact absurd h (by decide)

theorem magnitude_of_shape (finite : d.shape = .finite negative m e) :
    d.magnitude = magnitudeOf m e := by
  obtain ⟨canonical, _, whole⟩ := Double.eq_ofMagnitude_of_shape finite
  rw [whole]
  exact (Double.signBit_ofMagnitude (Nat.lt_trans canonical.magnitudeOf_lt (by decide))).2

theorem isZero_of_shape (finite : d.shape = .finite negative m e) : d.isZero = decide (m = 0) := by
  have normal := (Double.eq_ofMagnitude_of_shape finite).1.normal
  rw [Double.isZero, magnitude_of_shape finite, magnitudeOf]
  congr 1
  simp only [eq_iff_iff]
  omega

theorem isNegative_of_hasMinus (exact : isExact v = true) (minus : hasMinus v = true) :
    v.isNegative = true := by
  cases v with
  | null | bool | text => exact absurd minus (by simp [hasMinus])
  | int n => exact minus
  | double d =>
    obtain ⟨_, m, e, finite⟩ := exists_shape_of_units? exact
    have below := (Double.eq_ofMagnitude_of_shape finite).1.magnitudeOf_lt
    rw [← magnitude_of_shape finite] at below
    simp only [hasMinus, Bool.and_eq_true] at minus
    simp [Scalar.isNegative, Double.isNegative, minus.1, Double.isNaN, below.le]

/-- A finite double is written as a numeral that is read as it. -/
theorem exists_numeral_double (finite : d.shape = .finite negative m e) :
    ∃ n : Numeral, d.text = signed (d.signBit && !d.isZero) n.text ∧
      decimalValue n.coefficient n.power = ofMagnitude false d.magnitude := by
  obtain ⟨canonical, sign, _⟩ := Double.eq_ofMagnitude_of_shape finite
  rw [isZero_of_shape finite, sign, magnitude_of_shape finite]
  by_cases none : m = 0
  · rw [Double.text, finite]
    have least : e = -1074 := by
      have normal := canonical.normal
      omega
    subst none least
    refine ⟨Numeral.ofNat 0, ?_, by decide⟩
    simp only [if_true, decide_true, Bool.not_true, Bool.and_false]
    rfl
  · have pos : 0 < m := Nat.pos_of_ne_zero none
    obtain ⟨c, x, k, found, short⟩ := Decimal.shortest_spec canonical pos
    obtain ⟨proper, value⟩ := Decimal.ofNat_spec (Decimal.pos_of_inInterval short.inside pos) x
    obtain ⟨n, layout, same⟩ := exists_numeral_layout _ proper
    refine ⟨n, ?_, decimalValue_eq canonical pos (same ▸ value ▸ short.inside)⟩
    simp [Double.text_finite finite pos, none, found, layout, signed]

/-- An exact number is written as a numeral that is read as its absolute value. -/
theorem exists_numeral (number : v.isNumber = true) (exact : isExact v = true) :
    ∃ n : Numeral, scalarText v = signed (hasMinus v) n.text ∧
      decimalValue n.coefficient n.power = absolute v := by
  cases v with
  | null | bool | text => exact absurd number (by simp [Scalar.isNumber])
  | int n =>
    have small : n.natAbs < 2 ^ 53 := of_decide_eq_true exact
    refine ⟨Numeral.ofNat n.natAbs, ?_, ?_⟩
    · rw [scalarText, intText?, if_pos small]
      simp [intDigits, signed, hasMinus, Numeral.text, Numeral.ofNat, fractionText,
        exponentPartText]
    · simp [Numeral.coefficient, Numeral.power, Numeral.ofNat, decimalValue, absolute,
        Nat.ofDigitChars_ten_toDigits]
  | double d =>
    obtain ⟨_, _, _, finite⟩ := exists_shape_of_units? exact
    exact exists_numeral_double finite

/-- The tokens of a number. -/
def numberTokens (negative : Bool) (d : Double) : List Token :=
  if negative then [.sign "-", .number d] else [.number d]

/-- A written number becomes the tokens of its value. -/
theorem Lexes.number (number : v.isNumber = true) (exact : isExact v = true)
    (stop : EndsNumber names rest) :
    Lexes names (scalarText v) (numberTokens (hasMinus v) (absolute v)) rest := by
  obtain ⟨n, text, value⟩ := exists_numeral number exact
  rw [text, ← value]
  cases hasMinus v with
  | false => exact n.lexes stop
  | true =>
    refine Lexes.append (a := ['-']) (b := n.text) (s := [.sign "-"]) ?_ (n.lexes stop)
    refine Lexes.unarySign (s := "-") (by decide) ?_
    intro c hc
    -- The minus does not glue to a digit.
    obtain ⟨d, ds, head, digit⟩ := n.text_head
    have same : d = c := by simpa [head] using hc
    subst same
    constructor
    · rintro rfl
      exact absurd digit (by decide)
    · intro _ h
      obtain rfl : '-' = d := by simpa using h
      exact absurd digit (by decide)

/-! ## Values -/

theorem units?_ofMagnitude (canonical : Canonical m e) (negative : Bool) :
    (ofMagnitude negative (magnitudeOf m e)).units? =
      some (if negative then -((m * 2 ^ (e + 1074).toNat : Nat) : Int)
        else (m * 2 ^ (e + 1074).toNat : Nat)) := by
  rw [Double.units?, Double.shape_ofMagnitude canonical]

/-- A small integer is a double. -/
theorem exists_canonical {n : Nat} (pos : 0 < n) (small : n < 2 ^ 53) :
    ∃ k : Nat, Canonical (n * 2 ^ k) (-k) ∧
      ((n * 2 ^ k : Nat) * 2 ^ (-(k : Int)) : ℚ) = n := by
  have log : n.log2 < 53 := (Nat.log2_lt pos.ne').mpr small
  have low : 2 ^ n.log2 ≤ n := Nat.log2_self_le pos.ne'
  have high : n < 2 ^ (n.log2 + 1) := Nat.lt_log2_self
  obtain ⟨k, hk⟩ := Nat.exists_eq_add_of_le (Nat.le_of_lt_succ log)
  refine ⟨k, ⟨?_, by omega, by omega, Or.inr ?_⟩, ?_⟩
  · calc n * 2 ^ k < 2 ^ (n.log2 + 1) * 2 ^ k := by gcongr
      _ = 2 ^ 53 := by rw [← pow_add]; congr 1; omega
  · calc 2 ^ 52 = 2 ^ n.log2 * 2 ^ k := by rw [← pow_add, ← hk]
      _ ≤ n * 2 ^ k := by gcongr
  · push_cast
    rw [zpow_neg, zpow_natCast]
    field_simp

/-- So it is not rounded. -/
theorem units?_ofRatio_one {n : Nat} (small : n < 2 ^ 53) :
    (ofRatio false n 1).units? = some ((n * Double.unitsPerOne : Nat) : Int) := by
  rcases Nat.eq_zero_or_pos n with rfl | pos
  · decide +kernel
  · obtain ⟨k, canonical, value⟩ := exists_canonical pos small
    have exact := value ▸ Double.inInterval_self (n * 2 ^ k) (-k)
    rw [Double.ofRatio_eq_of_inInterval canonical (by positivity) one_ne_zero (by simpa using exact),
      units?_ofMagnitude canonical]
    have shift : 2 ^ k * 2 ^ (-(k : Int) + 1074).toNat = Double.unitsPerOne := by
      rw [← pow_add, Double.unitsPerOne]
      congr 1
      have := canonical.least
      omega
    rw [if_neg (by decide), Nat.mul_assoc, shift]

/-- The value of a number, in the smallest units of doubles. -/
def scalarUnits? : Scalar → Option Int
  | .int n => some (n * Double.unitsPerOne)
  | .double d => d.units?
  | _ => none

theorem scalarUnits?_eq_none (h : v.isNumber = false) : scalarUnits? v = none := by
  cases v with
  | null | bool | text => rfl
  | int | double => exact absurd h (by simp [Scalar.isNumber])

/-- An exact number has the value of its sign and its absolute value. -/
theorem units?_absolute (number : v.isNumber = true) (exact : isExact v = true) :
    ∃ n, scalarUnits? v = some n ∧ (absolute v).units? = some (n.natAbs : Int) ∧
      hasMinus v = decide (n < 0) := by
  cases v with
  | null | bool | text => simp [Scalar.isNumber] at number
  | int n =>
    have small : n.natAbs < 2 ^ 53 := of_decide_eq_true exact
    -- Units are positive, so they do not change the sign.
    have positive : (0 : Int) < Double.unitsPerOne := by
      rw [Double.unitsPerOne]
      positivity
    refine ⟨n * Double.unitsPerOne, rfl, ?_, ?_⟩
    · rw [absolute, units?_ofRatio_one small, Int.natAbs_mul, Int.natAbs_natCast]
    · rw [hasMinus]
      congr 1
      exact propext ⟨fun h => mul_neg_of_neg_of_pos h positive,
        fun h => neg_of_mul_neg_left h positive.le⟩
  | double d =>
    obtain ⟨negative, m, e, finite⟩ := exists_shape_of_units? exact
    obtain ⟨canonical, sign, _⟩ := Double.eq_ofMagnitude_of_shape finite
    have pos : 0 < 2 ^ (e + 1074).toNat := by positivity
    refine ⟨_, by rw [scalarUnits?, Double.units?, finite], ?_, ?_⟩
    · rw [absolute, magnitude_of_shape finite, units?_ofMagnitude canonical]
      cases negative <;> simp [Int.natAbs_mul, Int.natAbs_pow]
    · rw [hasMinus, sign, isZero_of_shape finite]
      cases negative <;> simp [Nat.pos_iff_ne_zero]

end JexlScript.Script.Reading
