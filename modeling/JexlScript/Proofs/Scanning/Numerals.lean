import JexlScript.Proofs.Reading.Numerals
import JexlScript.Proofs.Scanning.Failures
import JexlScript.Proofs.Scanning.Tiling

/-!
# Numbers as they are written

A numeral is digits, or a point with digits behind it and perhaps some before it.
Where digits come first it is one token (`Token.tokenize_numeral`), to which the
minus before it belongs if that is a sign. A numeral that starts with its point is
taken apart: the point is a symbol, and what follows it a number of its own.
-/

namespace JexlScript

open List

namespace Token

open Script.Reading (fractionText span_append)

variable {ι : Type} {g : Grammar ι}

/-! ## Numerals -/

/-- A numeral of formulas, with digits before its point, behind it, or both. -/
structure Numeral where
  whole : List Char
  /-- The digits behind the point; without them there is no point. -/
  fraction : List Char
  digits : ∀ c ∈ whole ++ fraction, c.isDigit = true
  nonempty : whole ++ fraction ≠ []

namespace Numeral

/-- The characters of a numeral. -/
def text (n : Numeral) : List Char := n.whole ++ fractionText n.fraction

/-- The double nearest to a numeral. -/
def value (n : Numeral) : Double :=
  Double.ofDecimal false (digitsValue (n.whole ++ n.fraction)) (-n.fraction.length)

/-- A numeral as a token. -/
def token (n : Numeral) (position : Nat) : Token :=
  ⟨.literal (.double n.value), String.ofList n.text, position⟩

/-- The digits behind the point, as a numeral without one. -/
def behindPoint (n : Numeral) (pointed : n.whole = []) : Numeral where
  whole := n.fraction
  fraction := []
  digits c inside := n.digits c (by simpa [pointed] using inside)
  nonempty := by simpa [pointed] using n.nonempty

end Numeral

/-- What follows neither goes on with the digits of a numeral nor with a point. -/
def EndsNumeral (rest : List Char) : Prop := ∀ c ∈ rest.head?, c.isDigit = false ∧ c ≠ '.'

theorem takeWhile_digits {ds rest : List Char} (digits : ∀ c ∈ ds, c.isDigit = true)
    (ends : ∀ c ∈ rest.head?, c.isDigit = false) : (ds ++ rest).takeWhile Char.isDigit = ds := by
  have split := span_append digits ends
  rw [span_eq_takeWhile_dropWhile] at split
  exact congrArg Prod.fst split

/-- The digits behind the point are found. -/
theorem fraction_fractionText {ds rest : List Char} (digits : ∀ c ∈ ds, c.isDigit = true)
    (ends : EndsNumeral rest) : fraction (fractionText ds ++ rest) = ds := by
  cases ds with
  | nil =>
    cases rest with
    | nil => rfl
    | cons c cs => exact fraction_cons cs (ends c rfl).2
  | cons d ds => exact takeWhile_digits digits fun c head => (ends c head).1

/-- A numeral with digits before its point is read as a whole. -/
theorem number?_text (n : Numeral) (leading : n.whole ≠ []) {rest : List Char}
    (ends : EndsNumeral rest) : number? (n.text ++ rest) = some (n.value, n.text.length) := by
  have behind : ∀ c ∈ (fractionText n.fraction ++ rest).head?, c.isDigit = false := by
    intro c head
    cases point : n.fraction with
    | nil => exact (ends c (by simpa [point, fractionText] using head)).1
    | cons d ds =>
      obtain rfl : '.' = c := by simpa [point, fractionText] using head
      rfl
  have first : (n.text ++ rest).takeWhile Char.isDigit = n.whole := by
    rw [Numeral.text, append_assoc]
    exact takeWhile_digits (fun c inside => n.digits c (mem_append_left _ inside)) behind
  have second : fraction ((n.text ++ rest).drop n.whole.length) = n.fraction := by
    rw [Numeral.text, append_assoc, drop_left]
    exact fraction_fractionText (fun c inside => n.digits c (mem_append_right _ inside)) ends
  simp only [number?_eq, first, second]
  cases point : n.fraction with
  | nil => simp [leading, Numeral.value, Numeral.text, point, fractionText]
  | cons d ds =>
    simp only [isEmpty_cons, Bool.not_false, if_true, Numeral.value, Numeral.text, point,
      fractionText, length_append, length_cons]
    congr 2
    omega

theorem isDigit_of_decimal {c : Char} (digit : c.isDigit = true) : Text.isDigit c = true := by
  have bounds : 0x30 ≤ c.toNat ∧ c.toNat ≤ 0x39 := by
    simpa [Char.isDigit, UInt32.le_iff_toNat_le] using digit
  exact any_eq_true.mpr ⟨(0x30, 0x39), .head _, by simpa using bounds⟩

/-- A numeral that starts with a digit is cut off whole, in every grammar. -/
theorem Cuts.numeral {position : Nat} {rest behind : List Char} {ts : List Token} (n : Numeral)
    (leading : n.whole ≠ []) (ends : EndsNumeral behind)
    (cuts : Cuts g (position + n.text.length) behind ts rest) :
    Cuts g position (n.text ++ behind) (n.token position :: ts) rest := by
  obtain ⟨c, cs, first⟩ := exists_cons_of_ne_nil leading
  have digit : Text.isDigit c = true := isDigit_of_decimal (n.digits c (by simp [first]))
  have starts : n.text ++ behind = c :: (cs ++ (fractionText n.fraction ++ behind)) := by
    simp [Numeral.text, first]
  have other : (decide (c = '\x27') || decide (c = '\x22')) = false := by
    rw [Bool.eq_false_iff]
    intro quote
    rcases (by simpa using quote : c = '\x27' ∨ c = '\x22') with rfl | rfl <;> cases digit
  have cut : next g c (cs ++ (fractionText n.fraction ++ behind)) =
      .ok (.literal (.double n.value), n.text.length) := by
    have found := number?_text n leading ends
    rw [starts] at found
    simp [next, other, digit, found]
  rw [starts]
  exact .token (Text.isBlank_of_isDigit digit) starts.symm cut cuts

/-- A point is a token of its own. -/
theorem Cuts.point {position : Nat} {rest behind : List Char} {ts : List Token}
    (cuts : Cuts Grammar.stock (position + 1) behind ts rest) :
    Cuts Grammar.stock position ('.' :: behind) (⟨.symbol .dot ".", ".", position⟩ :: ts) rest := by
  -- No other symbol of the stock grammar starts with a point.
  have symbols : (Grammar.stock.elements.names.all fun s =>
      s.toList.head? != some '.' || s == ".") = true := by
    decide +kernel
  have longest : longestSymbol Grammar.stock ('.' :: behind) = ['.'] := by
    obtain ⟨source, fits, longest⟩ := longestSymbol_spec Grammar.stock ('.' :: behind)
    have bound := longest "." (by decide +kernel) (by decide +kernel) (by simp)
    obtain nothing | ⟨s, named, _, same⟩ := source
    · simp [nothing] at bound
    · rw [← same] at fits bound ⊢
      cases chars : s.toList with
      | nil => simp [chars] at bound
      | cons c cs =>
        rw [chars] at fits
        obtain ⟨rfl, _⟩ := cons_prefix_cons.mp fits
        have only := all_eq_true.mp symbols s named
        obtain rfl : s = "." := by simpa [chars] using only
        exact chars.symm
  have cut : next Grammar.stock '.' behind = .ok (.symbol .dot ".", 1) := by
    have registered : Grammar.stock.elements.get? "." = some (Grammar.punctuation .dot) :=
      rfl
    have quiet : Text.isDigit '.' = false ∧ isWordStart '.' = false := by decide +kernel
    simp [next, quiet, longest, registered, Grammar.punctuation]
  have spelled : '.' :: behind = ['.'] ++ behind := rfl
  exact .token (by decide +kernel) spelled cut cuts

/-! ## Signs -/

/-- A token stays as it is, or is joined to a minus before it. -/
theorem Unfolds.split {text : List Char} {us ts ts' : List Token} {t : Token}
    (unfolds : Unfolds text us (ts ++ t :: ts')) (plain : t.isMinus = false) :
    ∃ front s back, us = front ++ s :: back ∧ Unfolds text back ts' ∧
      (s = t ∨ ∃ first minus v, ts = first ++ [minus] ∧ minus.isMinus = true ∧
        t.number = some v ∧ s = signed text minus t v) := by
  generalize whole : ts ++ t :: ts' = all at unfolds
  induction unfolds generalizing ts with
  | nil => simp at whole
  | @keep x us rest others ih =>
    cases ts with
    | nil =>
      obtain ⟨rfl, rfl⟩ := List.cons.inj whole
      exact ⟨[], t, us, rfl, others, .inl rfl⟩
    | cons y ts =>
      obtain ⟨rfl, rest⟩ := List.cons.inj whole
      obtain ⟨front, s, back, rfl, behind, is⟩ := ih rest
      refine ⟨y :: front, s, back, rfl, behind, is.imp_right ?_⟩
      rintro ⟨first, minus, v, rfl, found⟩
      exact ⟨y :: first, minus, v, rfl, found⟩
  | @sign x y v us rest minus number others ih =>
    -- The token may be the minus, the number behind it, or stand further on.
    match ts, whole with
    | [], whole =>
      cases whole
      rw [plain] at minus
      cases minus
    | [_], whole =>
      cases whole
      exact ⟨[], _, us, rfl, others, .inr ⟨[], x, v, rfl, minus, number, rfl⟩⟩
    | _ :: _ :: ts, whole =>
      cases whole
      obtain ⟨front, s, back, rfl, behind, is⟩ := ih rfl
      refine ⟨_ :: front, s, back, rfl, behind, is.imp_right ?_⟩
      rintro ⟨first, minus, v, rfl, found⟩
      exact ⟨x :: y :: first, minus, v, rfl, found⟩

/-- Where there are no tokens there are only blanks. -/
theorem Cuts.blanks {position : Nat} {cs rest : List Char} (cuts : Cuts g position cs [] rest) :
    ∃ blanks, (∀ c ∈ blanks, Text.isBlank c = true) ∧ cs = blanks ++ rest := by
  generalize nothing : [] = ts at cuts
  induction cuts with
  | stop => exact ⟨[], by simp, rfl⟩
  | @blank _ c _ _ _ blank _ ih =>
    obtain ⟨blanks, all, rfl⟩ := ih nothing
    exact ⟨c :: blanks, forall_mem_cons.mpr ⟨blank, all⟩, rfl⟩
  | token => cases nothing

/-- Behind the last token there are only blanks. -/
theorem Cuts.last {position : Nat} {cs rest : List Char} {ts : List Token} {t : Token}
    (cuts : Cuts g position cs (ts ++ [t]) rest) :
    (∃ behind, Piece g t.raw.toList behind t.lexeme) ∧ position ≤ t.position ∧
      ∃ blanks, (∀ c ∈ blanks, Text.isBlank c = true) ∧
        cs.drop (t.position - position) = t.raw.toList ++ (blanks ++ rest) := by
  generalize whole : ts ++ [t] = all at cuts
  induction cuts generalizing ts with
  | stop => simp at whole
  | @blank position c cs rest _ _ _ ih =>
    obtain ⟨piece, later, gap, all, behind⟩ := ih whole
    -- Positions count from the start of the text, and drops from that of the rest.
    have place : t.position - position = t.position - (position + 1) + 1 := by omega
    exact ⟨piece, by omega, gap, all, by rw [place, drop_succ_cons, behind]⟩
  | @token position c cs raw behind rest lexeme _ _ spelled cut cuts ih =>
    cases ts with
    | nil =>
      cases whole
      obtain ⟨gap, all, rfl⟩ := cuts.blanks
      obtain ⟨raw', rest', spelled', lengths, piece⟩ := next_piece cut
      obtain ⟨rfl, _⟩ := append_inj (spelled.symm.trans spelled') lengths
      exact ⟨⟨rest', by simpa using piece⟩, Nat.le_refl _, gap, all, by simp [spelled]⟩
    | cons _ ts =>
      obtain ⟨_, rfl⟩ := List.cons.inj whole
      obtain ⟨piece, later, gap, all, behind⟩ := ih rfl
      have place : t.position - position = raw.length + (t.position - (position + raw.length)) := by
        omega
      exact ⟨piece, by omega, gap, all, by
        rw [spelled, place, drop_length_add_append, behind]⟩

/-- The number that a numeral becomes, with the minus before it where that is a
sign. -/
def Numeral.ReadAs (n : Numeral) (position : Nat) (t : Token) : Prop :=
  t = n.token position ∨ ∃ blanks, (∀ c ∈ blanks, Text.isBlank c = true) ∧
    t.lexeme = .literal (.double n.value.neg) ∧ t.raw.toList = '-' :: (blanks ++ n.text) ∧
    t.position + blanks.length + 1 = position

/-- A numeral that starts with a digit is one number, alone and wherever a text is
cut up to it. One that starts with its point is a point and a number. -/
theorem tokenize_numeral (n : Numeral) {before after : List Char} {ts tokens : List Token}
    (ends : EndsNumeral after)
    (reached : Cuts Grammar.stock 0 (before ++ (n.text ++ after)) ts (n.text ++ after))
    (read : tokenize Grammar.stock (before ++ (n.text ++ after)) = .ok tokens) :
    (n.whole ≠ [] → tokenize Grammar.stock n.text = .ok [n.token 0] ∧
        ∃ front t back, tokens = front ++ t :: back ∧ n.ReadAs before.length t) ∧
      ∀ pointed : n.whole = [], ∃ front back,
        tokens = front ++ ⟨.symbol .dot ".", ".", before.length⟩ ::
          (n.behindPoint pointed).token (before.length + 1) :: back := by
  have place : 0 + ((before ++ (n.text ++ after)).length - (n.text ++ after).length) =
      before.length := by
    rw [List.length_append]
    omega
  -- the tokens are those before the numeral, its own and those behind it, with signs folded
  have folded (own : List Token) {next : Nat}
      (cut : ∀ {us rest}, Cuts Grammar.stock next after us rest →
        Cuts Grammar.stock before.length (n.text ++ after) (own ++ us) rest) :
      ∃ us, Unfolds (before ++ (n.text ++ after)) tokens (ts ++ (own ++ us)) := by
    obtain ⟨us, rest, cuts, _⟩ := exists_cuts Grammar.stock next after
    have run := reached.scanFrom
    rw [place, (cut cuts).scanFrom] at run
    rw [tokenize, scan, run] at read
    generalize scanFrom Grammar.stock _ 0 rest = scanned at read
    cases scanned with
    | error fault => cases read
    | ok vs =>
      cases read
      exact ⟨us ++ vs, by simpa using foldSigns_unfolds _ none (ts ++ (own ++ us ++ vs))⟩
  constructor
  · intro leading
    have cut : Cuts Grammar.stock 0 (n.text ++ []) [n.token 0] [] :=
      .numeral n leading (by simp [EndsNumeral]) (.stop _ _)
    rw [List.append_nil] at cut
    refine ⟨by rw [tokenize, scan, scanFrom_eq_ok_iff.mpr cut]; rfl, ?_⟩
    obtain ⟨us, unfolds⟩ := folded [n.token before.length] (.numeral n leading ends)
    obtain ⟨front, t, back, rfl, _, is⟩ := unfolds.split rfl
    refine ⟨front, t, back, rfl, is.imp_right ?_⟩
    rintro ⟨first, minus, v, rfl, sign, number, rfl⟩
    obtain ⟨⟨_, piece⟩, _, blanks, all, behind⟩ := reached.last
    have dash : minus.raw.toList = ['-'] := by
      rw [show minus.lexeme = .symbol .binaryOp "-" by simpa [isMinus] using sign] at piece
      exact piece.symbol_eq.symm
    rw [dash, Nat.sub_zero] at behind
    have lengths := congrArg List.length behind
    simp only [List.length_drop, List.length_append, List.length_cons, List.length_nil] at lengths
    have ends : (n.token before.length).stop - minus.position =
        ('-' :: (blanks ++ n.text)).length := by
      simp only [stop, Numeral.token, String.toList_ofList, List.length_append, List.length_cons]
      omega
    refine ⟨blanks, all, ?_, ?_, ?_⟩
    · cases number
      rfl
    · have whole : ['-'] ++ (blanks ++ (n.text ++ after)) = '-' :: (blanks ++ n.text) ++ after := by
        simp
      rw [signed, behind, ends, whole, List.take_left, String.toList_ofList]
    · simp only [signed]
      omega
  · intro pointed
    have some : n.fraction ≠ [] := by simpa [pointed] using n.nonempty
    have starts : n.text = '.' :: (n.behindPoint pointed).text := by
      simp only [Numeral.text, pointed, Numeral.behindPoint, List.nil_append,
        Script.Reading.fractionText_of_ne_nil some]
      rw [fractionText, List.append_nil]
    obtain ⟨us, unfolds⟩ := folded [⟨.symbol .dot ".", ".", before.length⟩,
        (n.behindPoint pointed).token (before.length + 1)] fun behind => by
      rw [starts]
      exact .point (.numeral (n.behindPoint pointed) some ends behind)
    obtain ⟨front, t, back, rfl, behind, rfl | ⟨_, _, _, _, _, number, _⟩⟩ := unfolds.split rfl
    · cases behind with
      | keep _ => exact ⟨front, _, rfl⟩
      | sign minus => cases minus
    · cases number

/-- `2.50` -/
def twoAndAHalf : Numeral := ⟨['2'], ['5', '0'], all_eq_true.mp (by decide), by decide⟩

/-- A sign before a numeral, with white space between them. -/
theorem tokenize_numeral_signed :
    tokenize Grammar.stock "2.50".toList = .ok [twoAndAHalf.token 0] ∧
      ∃ front t back, tokenize Grammar.stock "- 2.50*x".toList = .ok (front ++ t :: back) ∧
        twoAndAHalf.ReadAs 2 t := by
  have spelled : "- 2.50*x".toList = ['-'] ++ " 2.50*x".toList := rfl
  have reached : Cuts Grammar.stock 0 (['-', ' '] ++ (twoAndAHalf.text ++ ['*', 'x']))
      [⟨.symbol .binaryOp "-", "-", 0⟩] (twoAndAHalf.text ++ ['*', 'x']) :=
    .token (by decide +kernel) spelled (by decide +kernel)
      (.blank (by decide +kernel) (.stop _ _))
  obtain ⟨tokens, read⟩ : ∃ tokens, tokenize Grammar.stock "- 2.50*x".toList = .ok tokens :=
    ⟨_, rfl⟩
  obtain ⟨alone, front, t, back, rfl, is⟩ :=
    (tokenize_numeral twoAndAHalf (by simp [EndsNumeral]) reached read).1 (by decide)
  exact ⟨alone, front, t, back, read, is⟩

/-- A numeral of the documented form that is not one token. -/
theorem point_before_digit_apart : ∃ n : Numeral, n.text = ".5".toList ∧
    ¬ ∃ t, tokenize Grammar.stock n.text = .ok [t] := by
  refine ⟨⟨[], ['5'], List.all_eq_true.mp (by decide), by decide⟩, rfl, ?_⟩
  rintro ⟨t, read⟩
  have size : (tokenize Grammar.stock ".5".toList).toOption.map List.length = some 2 := by
    decide +kernel
  have one : tokenize Grammar.stock ".5".toList = .ok [t] := read
  rw [one] at size
  cases size

end Token

end JexlScript
