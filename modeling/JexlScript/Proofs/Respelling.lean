import JexlScript.Number.Layout
import JexlScript.Proofs.ShortestDecimal

/-!
# Respelled numbers

A number is spelled by digits around a point and perhaps an exponent, in many
ways. `Decimal.ofText` finds the digits and the point of the number from any of
them (`Spelling.ofText_text`), so the text of a double, which is made from the
spelling that routines write, lays out its shortest decimal
(`Double.text_finite`).
-/

namespace JexlScript

open List

open Double (Canonical)

/-! ## Digits and numbers -/

namespace Decimal

theorem digit_bounds {c : Char} (digit : c.isDigit = true) : 48 ≤ c.toNat ∧ c.toNat ≤ 57 :=
  Char.isDigit_iff_toNat.mp digit

theorem toDigits_digit {c : Char} (digit : c.isDigit = true) :
    Nat.toDigits 10 (c.toNat - 48) = [c] := by
  obtain ⟨low, high⟩ := digit_bounds digit
  have small : c.toNat - 48 < 10 := by omega
  have same : (c.toNat - 48).digitChar = c := by
    rw [← Char.toNat_inj, Nat.toNat_digitChar_of_lt_ten small]
    omega
  rw [Nat.toDigits_of_lt_base small, same]

/-- Digits that do not start with a zero are those of the number they denote. -/
theorem Proper.toDigits_ofDigitChars {ds : List Char} (proper : Proper ds) :
    Nat.toDigits 10 (Nat.ofDigitChars 10 ds 0) = ds ∧ 0 < Nat.ofDigitChars 10 ds 0 := by
  obtain ⟨digits, c, cs, rfl, nonzero⟩ := proper
  rw [forall_mem_cons] at digits
  -- from the last digit on: each one multiplies what stands before it by ten
  induction cs using List.reverseRecOn with
  | nil =>
    obtain ⟨low, _⟩ := digit_bounds digits.1
    have : c.toNat ≠ 48 := fun zero => nonzero (Char.toNat_inj.mp zero)
    rw [Nat.ofDigitChars_cons, Nat.ofDigitChars_nil]
    refine ⟨by simpa using toDigits_digit digits.1, ?_⟩
    show 0 < 10 * 0 + (c.toNat - 48)
    omega
  | append_singleton cs d ih =>
    rw [forall_mem_append] at digits
    obtain ⟨before, pos⟩ := ih ⟨digits.1, digits.2.1⟩
    have last : d.isDigit = true := digits.2.2 d mem_cons_self
    have small : d.toNat - 48 < 10 := by
      have := digit_bounds last
      omega
    rw [← cons_append, Nat.ofDigitChars_append, Nat.ofDigitChars_cons, Nat.ofDigitChars_nil]
    refine ⟨?_, by show 0 < 10 * _ + (d.toNat - 48); omega⟩
    have both := Nat.toDigits_append_toDigits (b := 10) (by decide) pos small
    rw [before, toDigits_digit last] at both
    exact both.symm

/-- Leading zeros do not count. -/
theorem ofDigitChars_dropZeros (ds : List Char) :
    Nat.ofDigitChars 10 (ds.dropWhile (· == '0')) 0 = Nat.ofDigitChars 10 ds 0 := by
  induction ds with
  | nil => rfl
  | cons c cs ih =>
    by_cases zero : c = '0'
    · rw [dropWhile_cons_of_pos (by simp [zero]), ih, zero, Nat.ofDigitChars_cons]
      rfl
    · rw [dropWhile_cons_of_neg (by simp [zero])]

/-- Without its leading zeros a positive number is proper. -/
theorem proper_dropZeros {ds : List Char} (digits : ∀ c ∈ ds, c.isDigit = true)
    (pos : 0 < Nat.ofDigitChars 10 ds 0) : Proper (ds.dropWhile (· == '0')) := by
  refine ⟨fun c member => digits c ((dropWhile_sublist _).subset member), ?_⟩
  cases left : ds.dropWhile (· == '0') with
  | nil =>
    rw [← ofDigitChars_dropZeros, left] at pos
    cases pos
  | cons c cs =>
    have first := head?_dropWhile_not (· == '0') ds
    rw [left] at first
    exact ⟨c, cs, rfl, by simpa using first⟩

end Decimal

namespace Script.Reading

/-! ## Spellings -/

/-- A point and digits after it, nothing where there are none. -/
def fractionText : List Char → List Char
  | [] => []
  | c :: cs => '.' :: c :: cs

theorem fractionText_of_ne_nil {ds : List Char} (h : ds ≠ []) : fractionText ds = '.' :: ds := by
  cases ds with
  | nil => exact absurd rfl h
  | cons c cs => rfl

/-- A decimal text: digits, perhaps a point with more digits, and perhaps an
exponent with its sign. -/
structure Spelling where
  whole : List Char
  fraction : List Char
  /-- Whether the exponent is negative, and its digits. -/
  exponent : Option (Bool × List Char)
  whole_digits : ∀ c ∈ whole, c.isDigit = true
  fraction_digits : ∀ c ∈ fraction, c.isDigit = true
  exponent_digits : ∀ p ∈ exponent, ∀ c ∈ p.2, c.isDigit = true

namespace Spelling

/-- An exponent with its sign, or nothing. -/
def exponentText : Option (Bool × List Char) → List Char
  | none => []
  | some (negative, ds) => 'e' :: (if negative then '-' else '+') :: ds

/-- The text of a spelling. -/
def text (s : Spelling) : List Char :=
  s.whole ++ fractionText s.fraction ++ exponentText s.exponent

/-- The number that all digits before the exponent denote without the point. -/
def coefficient (s : Spelling) : Nat := Nat.ofDigitChars 10 (s.whole ++ s.fraction) 0

/-- The power of ten that an exponent stands for. -/
def shift : Option (Bool × List Char) → Int
  | none => 0
  | some (negative, ds) =>
    if negative then -(Nat.ofDigitChars 10 ds 0 : Int) else Nat.ofDigitChars 10 ds 0

/-- The power of ten of the last digit. -/
def power (s : Spelling) : Int := shift s.exponent - s.fraction.length

/-- The number that a text denotes. -/
def value (s : Spelling) : ℚ := s.coefficient * 10 ^ s.power

variable (s : Spelling)

theorem coefficient_pos {s : Spelling} (pos : 0 < s.value) : 0 < s.coefficient := by
  refine Nat.pos_of_ne_zero fun none => ?_
  rw [value, none, Nat.cast_zero, zero_mul] at pos
  exact lt_irrefl 0 pos

/-! ## Taking a text apart -/

theorem digits (c : Char) (member : c ∈ s.whole ++ s.fraction) : c.isDigit = true :=
  (mem_append.mp member).elim (s.whole_digits c) (s.fraction_digits c)

/-- A list splits before the first place where a condition fails. -/
theorem cut {p : Char → Bool} {xs ys : List Char} (all : ∀ c ∈ xs, p c = true)
    (stop : ys = [] ∨ ∃ c cs, ys = c :: cs ∧ p c = false) :
    (xs ++ ys).takeWhile p = xs ∧ (xs ++ ys).dropWhile p = ys := by
  rw [takeWhile_append_of_pos all, dropWhile_append_of_pos all]
  rcases stop with rfl | ⟨c, cs, rfl, fails⟩ <;> simp [*]

/-- The letter `e` is the first in a spelling. -/
theorem cut_exponent :
    s.text.takeWhile (· != 'e') = s.whole ++ fractionText s.fraction ∧
      s.text.dropWhile (· != 'e') = exponentText s.exponent := by
  refine cut (fun c member => ?_) ?_
  · rw [bne_iff_ne]
    rintro rfl
    rcases mem_append.mp member with whole | fraction
    · exact absurd (s.whole_digits _ whole) (by decide)
    · cases digits : s.fraction with
      | nil => simp [digits, fractionText] at fraction
      | cons d ds =>
        rw [digits, fractionText, ← digits, mem_cons] at fraction
        rcases fraction with point | fraction
        · exact absurd point (by decide)
        · exact absurd (s.fraction_digits _ fraction) (by decide)
  · cases s.exponent with
    | none => exact .inl rfl
    | some p => exact .inr ⟨'e', _, rfl, by decide⟩

/-- What is before it is cut at the point. -/
theorem cut_point :
    (s.whole ++ fractionText s.fraction).takeWhile (· != '.') = s.whole ∧
      (s.whole ++ fractionText s.fraction).dropWhile (· != '.') = fractionText s.fraction := by
  refine cut (fun c member => ?_) ?_
  · rw [bne_iff_ne]
    rintro rfl
    exact absurd (s.whole_digits _ member) (by decide)
  · cases s.fraction with
    | nil => exact .inl rfl
    | cons d ds => exact .inr ⟨'.', _, rfl, by decide⟩

theorem tail_fractionText (ds : List Char) : (fractionText ds).tail = ds := by
  cases ds <;> rfl

/-- A written exponent is read back. -/
theorem readExponent_tail (e : Option (Bool × List Char)) :
    Decimal.readExponent (exponentText e).tail = shift e := by
  match e with
  | none => rfl
  | some (true, _) => rfl
  | some (false, _) => rfl

/-- Whatever way a number is spelled, its digits and its point are found. -/
theorem ofText_text (pos : 0 < s.value) :
    Decimal.ofText s.text = Decimal.ofNat s.coefficient s.power := by
  have proper := Decimal.proper_dropZeros s.digits (coefficient_pos pos)
  have stripped : Nat.toDigits 10 s.coefficient = (s.whole ++ s.fraction).dropWhile (· == '0') := by
    rw [coefficient, ← Decimal.ofDigitChars_dropZeros, proper.toDigits_ofDigitChars.1]
  rw [Decimal.ofText, s.cut_exponent.1, s.cut_exponent.2, s.cut_point.1, s.cut_point.2,
    tail_fractionText, readExponent_tail, Decimal.ofNat, stripped, power]
  congr 1
  rw [length_append]
  push_cast
  omega

end Spelling

/-! ## Numerals -/

/-- A decimal numeral, without a sign. -/
structure Numeral where
  whole : List Char
  fraction : List Char
  /-- The exponent, where one is written. -/
  exponent : Option Int
  whole_digits : ∀ c ∈ whole, c.isDigit = true
  fraction_digits : ∀ c ∈ fraction, c.isDigit = true
  nonempty : whole ≠ []
  leading : ¬(whole.head? = some '0' ∧ 1 < whole.length)

/-- The text of an exponent, with the letter before it. -/
def exponentPartText : Option Int → List Char
  | none => []
  | some e => 'e' :: Decimal.exponentText e

namespace Numeral

/-- The text of a numeral. -/
def text (n : Numeral) : List Char :=
  n.whole ++ (fractionText n.fraction ++ exponentPartText n.exponent)

/-- The number that all digits make up. -/
def coefficient (n : Numeral) : Nat := Nat.ofDigitChars 10 (n.whole ++ n.fraction) 0

/-- The power of ten of the last digit. -/
def power (n : Numeral) : Int := n.exponent.getD 0 - n.fraction.length

end Numeral

/-! ## Layouts -/

theorem isDigit_of_mem_replicate {z : Nat} {c : Char} (h : c ∈ List.replicate z '0') :
    c.isDigit = true := by
  rw [eq_of_mem_replicate h]
  decide

/-- A decimal is laid out as a numeral that denotes it. -/
theorem exists_numeral_layout (d : Decimal) (proper : Decimal.Proper d.digits) :
    ∃ n : Numeral, d.layout = n.text ∧ (n.coefficient : ℚ) * 10 ^ n.power = d.value := by
  obtain ⟨c, cs, head, nonzero⟩ := proper.head
  unfold Decimal.layout Decimal.value
  simp only
  split
  case isTrue whole =>
    -- All digits stand before the point, and zeros fill the places up to it.
    refine ⟨⟨d.digits ++ List.replicate (d.point - d.digits.length).toNat '0', [], none, ?_,
      by simp, by simp [head], by simp [head, nonzero]⟩, ?_, ?_⟩
    · intro x hx
      rcases mem_append.mp hx with hx | hx
      · exact proper.digits x hx
      · exact isDigit_of_mem_replicate hx
    · simp [Numeral.text, fractionText, exponentPartText]
    · obtain ⟨z, hz⟩ := Int.eq_ofNat_of_zero_le (by omega : 0 ≤ d.point - d.digits.length)
      simp only [Numeral.coefficient, Numeral.power, hz, append_nil, Nat.ofDigitChars_append,
        Int.toNat_natCast, Nat.ofDigitChars_replicate_zero, Option.getD_none, length_nil]
      push_cast
      rw [zpow_natCast]
      ring
  case isFalse =>
    split
    case isTrue inside =>
      -- The point stands among the digits.
      have short : d.point.toNat < d.digits.length := by omega
      obtain ⟨p, hp⟩ := Nat.exists_eq_succ_of_ne_zero (by omega : d.point.toNat ≠ 0)
      refine ⟨⟨d.digits.take d.point.toNat, d.digits.drop d.point.toNat, none, ?_, ?_,
        by simp [head, hp], by simp [head, hp, nonzero]⟩, ?_, ?_⟩
      · intro x hx
        exact proper.digits x (mem_of_mem_take hx)
      · intro x hx
        exact proper.digits x (mem_of_mem_drop hx)
      · have rest : d.digits.drop d.point.toNat ≠ [] := by simp [short]
        simp [Numeral.text, fractionText_of_ne_nil rest, exponentPartText]
      · simp only [Numeral.coefficient, Numeral.power, take_append_drop, Option.getD_none,
          length_drop]
        congr 2
        omega
    case isFalse =>
      split
      case isTrue small =>
        -- Zeros stand between the point and the digits.
        refine ⟨⟨['0'], List.replicate (-d.point).toNat '0' ++ d.digits, none, by simp, ?_,
          by simp, by simp⟩, ?_, ?_⟩
        · intro x hx
          rcases mem_append.mp hx with hx | hx
          · exact isDigit_of_mem_replicate hx
          · exact proper.digits x hx
        · have rest : List.replicate (-d.point).toNat '0' ++ d.digits ≠ [] := by simp [head]
          simp [Numeral.text, fractionText_of_ne_nil rest, exponentPartText]
        · simp only [Numeral.coefficient, Numeral.power, singleton_append,
            Nat.ofDigitChars_cons, Nat.ofDigitChars_append, Nat.ofDigitChars_replicate_zero,
            Option.getD_none, length_append, length_replicate]
          congr 2
          omega
      case isFalse =>
        -- One digit stands before the point, and an exponent at the end.
        have digits : d.digits = [c] ++ cs := head
        refine ⟨⟨[c], cs, some (d.point - 1), ?_, ?_, by simp, by simp⟩, ?_, ?_⟩
        · intro x hx
          exact proper.digits x (digits ▸ mem_append_left _ hx)
        · intro x hx
          exact proper.digits x (digits ▸ mem_append_right _ hx)
        · dsimp only [Numeral.text]
          rw [head]
          cases cs <;> simp [fractionText, exponentPartText]
        · simp only [Numeral.coefficient, Numeral.power, digits, Option.getD_some,
            length_append, length_singleton]
          congr 2
          omega

/-! ## The spelling of a double -/

/-- A number in the interval of a double that is its shortest one gives the
digits and the point of `Decimal.shortest`. -/
theorem shortest_eq_of_value {m k : Nat} {e : Int} (canonical : Canonical m e)
    (pos : 0 < m) {n : Nat} {x : Int} (short : Decimal.Shortest m e k (n * 10 ^ x)) :
    Decimal.shortest m e = Decimal.ofNat n x := by
  obtain ⟨c, y, j, found, short'⟩ := Decimal.shortest_spec canonical pos
  rw [found]
  exact Decimal.ofNat_congr (Decimal.pos_of_inInterval short'.inside pos)
    (Decimal.pos_of_inInterval short.inside pos) (short'.unique short)

/-- A numeral is a spelling with its exponent in the shortest form. -/
def Spelling.ofNumeral (n : Numeral) : Spelling where
  whole := n.whole
  fraction := n.fraction
  exponent := n.exponent.map fun e => (decide (e < 0), Nat.toDigits 10 e.natAbs)
  whole_digits := n.whole_digits
  fraction_digits := n.fraction_digits
  exponent_digits := by
    intro p given c member
    obtain ⟨e, _, rfl⟩ := Option.map_eq_some_iff.mp given
    exact Nat.isDigit_of_mem_toDigits (by decide) (by decide) member

/-- It has the same text and the same value. -/
theorem Spelling.ofNumeral_spec (n : Numeral) :
    (ofNumeral n).text = n.text ∧ (ofNumeral n).value = n.coefficient * 10 ^ n.power := by
  cases found : n.exponent with
  | none =>
    simp [ofNumeral, text, Numeral.text, exponentPartText, value, coefficient, power,
      exponentText, shift, Numeral.coefficient, Numeral.power, found]
  | some e =>
    by_cases sign : 0 ≤ e
    · simp [ofNumeral, text, Numeral.text, exponentPartText, value, coefficient, power,
        exponentText, shift, Numeral.coefficient, Numeral.power, found, Decimal.exponentText, sign,
        Int.not_lt.mpr sign, Nat.ofDigitChars_ten_toDigits]
    · simp [ofNumeral, text, Numeral.text, exponentPartText, value, coefficient, power,
        exponentText, shift, Numeral.coefficient, Numeral.power, found, Decimal.exponentText, sign,
        Int.not_le.mp sign, Nat.ofDigitChars_ten_toDigits, abs_of_neg]

/-- Routines spell a double by its shortest decimal. -/
theorem exists_spelling {m : Nat} {e : Int} (canonical : Canonical m e) (pos : 0 < m) :
    ∃ (s : Spelling) (k : Nat), finiteSpelling true false m e = s.text ∧
      Decimal.Shortest m e k s.value := by
  obtain ⟨c, x, k, found, short⟩ := Decimal.shortest_spec canonical pos
  obtain ⟨proper, value⟩ := Decimal.ofNat_spec (Decimal.pos_of_inInterval short.inside pos) x
  rw [← found] at proper value
  rw [← value] at short
  rw [finiteSpelling, if_neg pos.ne']
  generalize Decimal.shortest m e = d at *
  obtain ⟨a, as, head, _⟩ := proper.head
  dsimp only
  split
  -- Small exponents are laid out with a point, and an integer gets `.0`.
  · by_cases whole : d.digits.length ≤ d.point
    · refine ⟨⟨d.digits ++ List.replicate (d.point - d.digits.length).toNat '0', ['0'], none,
        ?_, by simp, by simp⟩, k, ?_, ?_⟩
      · intro c member
        exact (mem_append.mp member).elim (proper.digits c) isDigit_of_mem_replicate
      · simp [Spelling.text, Spelling.exponentText, Decimal.layout, whole,
          (by omega : d.point ≤ 21), fractionText]
      · obtain ⟨z, hz⟩ := Int.eq_ofNat_of_zero_le (sub_nonneg.mpr whole)
        rw [Decimal.value, hz, zpow_natCast] at short
        convert short using 1
        simp [Spelling.value, Spelling.coefficient, Spelling.power, Spelling.shift, hz,
          Nat.ofDigitChars_append, Nat.ofDigitChars_replicate_zero, Nat.ofDigitChars_cons]
        ring
    · obtain ⟨n, layout, same⟩ := exists_numeral_layout d proper
      obtain ⟨text, value⟩ := Spelling.ofNumeral_spec n
      refine ⟨.ofNumeral n, k, ?_, by rwa [value, same]⟩
      simp [text, layout, whole]
  -- Other exponents have two digits at least, so a zero may be put before them.
  · generalize hq : d.point - 1 = q
    generalize padded : (if (Nat.toDigits 10 q.natAbs).length < 2 then
      '0' :: Nat.toDigits 10 q.natAbs else Nat.toDigits 10 q.natAbs) = ds
    have power : Nat.ofDigitChars 10 ds 0 = q.natAbs := by
      rw [← padded]
      split <;> simp [Nat.ofDigitChars_cons, Nat.ofDigitChars_ten_toDigits]
    have digits : ∀ c ∈ ds, c.isDigit = true := by
      have own : ∀ c ∈ Nat.toDigits 10 q.natAbs, c.isDigit = true := fun c =>
        Nat.isDigit_of_mem_toDigits (by decide) (by decide)
      rw [← padded]
      split
      · exact forall_mem_cons.mpr ⟨by decide, own⟩
      · exact own
    have all := head ▸ proper.digits
    rw [forall_mem_cons] at all
    refine ⟨⟨[a], as, some (decide (q < 0), ds), by simpa using all.1, all.2, ?_⟩, k, ?_, ?_⟩
    · rintro _ ⟨⟩
      exact digits
    · rw [head]
      rcases lt_or_ge q 0 with sign | sign <;> cases as <;>
        simp [Spelling.text, Spelling.exponentText, fractionText, sign, not_le.mpr, not_lt.mpr]
    · convert short using 1
      rw [Spelling.value, Decimal.value, head, Spelling.coefficient, Spelling.power,
        Spelling.shift]
      congr 2
      simp only [power, decide_eq_true_eq, length_cons]
      split <;> omega

end Script.Reading

open Script.Reading in
/-- The text of a finite double other than zero lays out its shortest decimal. -/
theorem Double.text_finite {d : Double} {negative : Bool} {m : Nat} {e : Int}
    (finite : d.shape = .finite negative m e) (pos : 0 < m) :
    d.text = if negative then '-' :: (Decimal.shortest m e).layout
      else (Decimal.shortest m e).layout := by
  obtain ⟨canonical, _, _⟩ := Double.eq_ofMagnitude_of_shape finite
  obtain ⟨s, k, spelled, short⟩ := exists_spelling canonical pos
  have found : Decimal.ofText (finiteSpelling true false m e) = Decimal.shortest m e := by
    rw [spelled, s.ofText_text (short.inside.pos pos),
      shortest_eq_of_value canonical pos short]
  simp only [Double.text, finite, pos.ne', if_false, Decimal.respell, found]

end JexlScript
