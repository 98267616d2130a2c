import JexlScript.Script.Printer
import JexlScript.Proofs.ShortestDecimal
import JexlScript.Proofs.Reading.Lexer
import Mathlib.Tactic.FinCases

/-!
# Written lexemes

What the lexer makes of the pieces that the printer writes: a name, a string, a
sign or a number becomes one token, provided that what stands behind it does not
lengthen it. A number becomes the double that it was written for.
-/

namespace JexlScript.Script.Reading

open List

variable {names : NameClass}
variable {rest cs : List Char} {c : Char} {s : String}

/-! ## Runs of the lexer -/

theorem tokens_nil : tokens names [] = some [] := by
  rw [tokens.eq_def]
  rfl

/-- A text is lexed token by token. -/
theorem tokens_of_token {cs rest : List Char} {t : Token} (visible : isBlank c = false)
    (h : token names (c :: cs) = some (t, rest)) :
    tokens names (c :: cs) = (tokens names rest).map (t :: ·) := by
  rw [tokens.eq_def, dropWhile_cons_of_neg (by simp [visible])]
  simp only [h, Option.bind_eq_bind, Option.bind_some]
  cases tokens names rest <;> rfl

/-- In front of `rest`, the lexer makes the tokens `ts` of a text. -/
def Lexes (names : NameClass) (text : List Char) (ts : List Token) (rest : List Char) : Prop :=
  tokens names (text ++ rest) = (tokens names rest).map (ts ++ ·)

theorem Lexes.nil : Lexes names [] [] rest := by
  simp [Lexes]

/-- Pieces of a text are lexed one after the other, the first with the second behind it. -/
theorem Lexes.append {a b rest : List Char} {s t : List Token} (ha : Lexes names a s (b ++ rest))
    (hb : Lexes names b t rest) : Lexes names (a ++ b) (s ++ t) rest := by
  rw [Lexes] at ha hb ⊢
  rw [append_assoc, ha, hb, Option.map_map]
  congr 1
  funext ts
  exact (append_assoc ..).symm

theorem Lexes.blank : Lexes names [' '] [] rest := by
  rw [Lexes, tokens.eq_def]
  simp only [cons_append, nil_append, dropWhile_cons_of_pos (by decide :
    isBlank ' ' = true), Option.map_id']
  rw [tokens.eq_def names rest]

/-- A piece that is one token. -/
theorem Lexes.of_token {cs rest : List Char} {t : Token} (visible : isBlank c = false)
    (h : token names (c :: cs ++ rest) = some (t, rest)) : Lexes names (c :: cs) [t] rest :=
  tokens_of_token visible h

theorem Lexes.tokens_eq {text : List Char} {ts : List Token} (h : Lexes names text ts []) :
    tokens names text = some ts := by
  rw [Lexes, append_nil, tokens_nil] at h
  rw [h, Option.map_some, append_nil]

/-! ## Names -/

/-- A run ends where the next character does not belong to it. -/
theorem span_append {p : Char → Bool} {a rest : List Char} (all : ∀ c ∈ a, p c = true)
    (stop : ∀ c ∈ rest.head?, p c = false) : (a ++ rest).span p = (a, rest) := by
  rw [span_eq_takeWhile_dropWhile, takeWhile_append_of_pos all,
    dropWhile_append_of_pos all]
  cases rest with
  | nil => simp
  | cons c cs =>
    have := stop c rfl
    simp [this]

/-- Names start with none of the ASCII characters that are used otherwise. -/
theorem NameClass.ne_of_start (start : names.start c = true) (d : Char) (plain : d.toNat < 128)
    (other : isKeyStart d = false) : c ≠ d := by
  intro same
  rw [same, names.start_ascii d plain] at start
  exact Bool.false_ne_true (other.symm.trans start)

theorem isBlank_eq_false (h : c ∉ [' ', '\t', '\x0b', '\x0c']) :
    isBlank c = false := by
  simpa [isBlank, and_assoc] using h

theorem isBlank_of_start (start : names.start c = true) : isBlank c = false := by
  apply isBlank_eq_false
  intro blank
  simp only [mem_cons, not_mem_nil, or_false] at blank
  rcases blank with rfl | rfl | rfl | rfl <;>
    exact NameClass.ne_of_start start _ (by decide) (by decide) rfl

theorem isDigit_spec (h : c.isDigit = true) :
    c.toNat < 128 ∧ isKeyStart c = false ∧ isBlank c = false := by
  have bounds : 48 ≤ c.toNat ∧ c.toNat ≤ 57 := by
    simpa [Char.isDigit, UInt32.le_iff_toNat_le] using h
  have back : c = Char.ofNat c.toNat := (Char.ofNat_toNat c).symm
  rw [back]
  obtain ⟨low, high⟩ := bounds
  generalize c.toNat = n at low high
  interval_cases n <;> decide

theorem isDigit_of_start (start : names.start c = true) : c.isDigit = false := by
  by_contra digit
  obtain ⟨plain, other, _⟩ := isDigit_spec (Bool.of_not_eq_false digit)
  exact NameClass.ne_of_start start c plain other rfl

/-- Whether a text is a name. -/
def NameClass.isName (names : NameClass) (s : String) : Bool :=
  match s.toList with
  | [] => false
  | c :: cs => names.start c && cs.all names.part

/-- What follows does not lengthen a name. -/
def EndsName (names : NameClass) (rest : List Char) : Prop :=
  ∀ c ∈ rest.head?, names.part c = false

/-- A name is taken as a whole. -/
theorem token_word {n : String} (h : names.isName n = true) (stop : EndsName names rest) :
    token names (n.toList ++ rest) = some (.word n, rest) := by
  rw [NameClass.isName] at h
  cases chars : n.toList with
  | nil => simp [chars] at h
  | cons c cs =>
    simp only [chars, Bool.and_eq_true, all_eq_true] at h
    obtain ⟨start, part⟩ := h
    have all : ∀ x ∈ c :: cs, names.part x = true := by
      intro x hx
      rcases mem_cons.mp hx with rfl | hx
      · exact names.part_of_start _ start
      · exact part x hx
    rw [token.eq_def]
    simp only [cons_append, start, if_true]
    rw [← cons_append, span_append all stop, ← chars, String.ofList_toList]

theorem isName_head {n : String} (h : names.isName n = true) :
    ∃ c cs, n.toList = c :: cs ∧ names.start c = true := by
  rw [NameClass.isName] at h
  split at h
  case h_1 => exact absurd h (by decide)
  case h_2 c cs chars => exact ⟨c, cs, chars, (Bool.and_eq_true_iff.mp h).1⟩

theorem Lexes.word {n : String} (h : names.isName n = true) (stop : EndsName names rest) :
    Lexes names n.toList [.word n] rest := by
  obtain ⟨c, cs, chars, start⟩ := isName_head h
  have taken := token_word h stop
  rw [chars] at taken ⊢
  exact Lexes.of_token (isBlank_of_start start) taken

/-! ## Signs -/

/-- A character that starts nothing else starts a sign. -/
theorem token_sign (plain : c.toNat < 128) (name : isKeyStart c = false) (digit : c.isDigit = false)
    (quote : c ≠ '\x22' ∧ c ≠ '\x27') (point : c = '.' → ∀ d ∈ cs.head?, d.isDigit = false) :
    token names (c :: cs) = longestSign (c :: cs) := by
  have start : names.start c = false := (names.start_ascii c plain).trans name
  have number : (decide (c = '.') && cs.head?.any Char.isDigit) = false := by
    by_cases h : c = '.'
    · cases cs with
      | nil => simp
      | cons d ds => simp [point h d rfl]
    · simp [h]
  unfold token
  simp [start, digit, number, quote.1, quote.2]

/-- Before a blank a sign is the longest that fits. -/
theorem longestSign_blank (known : s ∈ signs) (rest : List Char) :
    longestSign (s.toList ++ ' ' :: rest) = some (.sign s, ' ' :: rest) := by
  fin_cases known <;> rfl

theorem sign_head (known : s ∈ signs) :
    ∃ c cs, s.toList = c :: cs ∧ c.toNat < 128 ∧ isKeyStart c = false ∧ c.isDigit = false ∧
      (c ≠ '\x22' ∧ c ≠ '\x27') ∧ isBlank c = false := by
  fin_cases known <;> exact ⟨_, _, rfl, by decide⟩

theorem Lexes.of_longestSign (known : s ∈ signs)
    (h : longestSign (s.toList ++ rest) = some (.sign s, rest))
    (point : s.toList.head? = some '.' → ∀ d ∈ (s.toList.tail ++ rest).head?, d.isDigit = false) :
    Lexes names s.toList [.sign s] rest := by
  obtain ⟨c, cs, chars, plain, name, digit, quote, visible⟩ := sign_head known
  rw [chars] at h point ⊢
  refine Lexes.of_token visible ?_
  rw [cons_append, token_sign plain name digit quote]
  · exact h
  · intro isPoint
    exact point (by simp [isPoint])

theorem Lexes.sign_blank (known : s ∈ signs) :
    Lexes names s.toList [.sign s] (' ' :: rest) := by
  apply Lexes.of_longestSign known (longestSign_blank known rest)
  intro point d hd
  fin_cases known <;> revert d <;> simp_all

/-- Brackets, commas and colons start no longer sign. -/
theorem Lexes.bracket (rest : List Char)
    (known : s ∈ ["(", ")", "[", "]", "\x7b", "\x7d", ",", ":"]) :
    Lexes names s.toList [.sign s] rest := by
  fin_cases known <;> exact Lexes.of_longestSign (by decide) rfl (by simp)

/-- A unary sign stays apart from what follows, if that is no sign it could join. -/
theorem Lexes.unarySign (known : s ∈ ["!", "~", "+", "-"])
    (next : ∀ d ∈ rest.head?, d ≠ '=' ∧ (s ∈ ["+", "-"] → s.toList ≠ [d])) :
    Lexes names s.toList [.sign s] rest := by
  have alone : longestSign (s.toList ++ rest) = some (.sign s, rest) := by
    cases rest with
    | nil => fin_cases known <;> rfl
    | cons d ds =>
      obtain ⟨equals, same⟩ := next d rfl
      fin_cases known <;>
        simp_all [longestSign, signs, startsWithSign, List.isPrefixOf, Ne.symm equals]
  fin_cases known <;> exact Lexes.of_longestSign (by decide) alone (by simp)

/-- A point before a name starts no numeral. -/
theorem Lexes.point {d : Char} (next : names.start d = true) :
    Lexes names ".".toList [.sign "."] (d :: rest) := by
  have digit := isDigit_of_start next
  have point : d ≠ '.' := NameClass.ne_of_start next '.' (by decide) (by decide)
  refine Lexes.of_longestSign (by decide) ?_ ?_
  · simp [longestSign, signs, startsWithSign, List.isPrefixOf, Ne.symm point]
  · simp [digit]

/-- Before anything but a digit `?.` is one sign. -/
theorem Lexes.optional {d : Char} (next : d.isDigit = false) :
    Lexes names "?.".toList [.sign "?."] (d :: rest) := by
  refine Lexes.of_longestSign (by decide) ?_ (by simp)
  simp [longestSign, signs, startsWithSign, List.isPrefixOf, next]

/-! ## Strings -/

attribute [local simp] stringRest

/-- A character that is not escaped stands for itself. -/
theorem stringRest_plain (slash : c ≠ '\\') (quote : c ≠ '\x22') (line : isLineEnd c = false) :
    stringRest '\x22' (c :: cs) =
      (stringRest '\x22' cs).map fun (s, rest) => (c :: s, rest) := by
  rw [stringRest.eq_5 _ _ _ (by simp [slash]) (by simp [slash]) (by simp [slash])]
  simp only [quote, line, slash, if_false, or_self, Bool.false_eq_true]
  cases stringRest '\x22' cs <;> rfl

theorem stringRest_escaped {c d : Char} (h : escaped? d = some c) :
    stringRest '\x22' ('\\' :: d :: cs) =
      (stringRest '\x22' cs).map fun (s, rest) => (c :: s, rest) := by
  -- `x` and `u` start longer escapes, and stand for nothing by themselves.
  have hex : d ≠ 'x' ∧ d ≠ 'u' := by
    constructor <;> rintro rfl <;> simp [escaped?] at h
  rw [stringRest.eq_4 _ _ _ (by simp [hex.1]) (by simp [hex.2]), h]
  cases stringRest '\x22' cs <;> rfl

theorem stringRest_hex {digits cs : List Char} (h : hexChar? digits = some c) :
    (digits.length = 2 → stringRest '\x22' ('\\' :: 'x' :: digits ++ cs) =
      (stringRest '\x22' cs).map fun (s, rest) => (c :: s, rest)) ∧
    (digits.length = 4 → stringRest '\x22' ('\\' :: 'u' :: digits ++ cs) =
      (stringRest '\x22' cs).map fun (s, rest) => (c :: s, rest)) := by
  constructor <;> intro count
  · match digits, count with
    | [a, b], _ =>
      simp only [cons_append, nil_append, stringRest, h]
      cases stringRest '\x22' cs <;> rfl
  · match digits, count with
    | [a, b, c', d], _ =>
      simp only [cons_append, nil_append, stringRest, h]
      cases stringRest '\x22' cs <;> rfl

/-- What is written for a character is read as the character. -/
theorem stringRest_escapeChar (c : Char) (cs : List Char) :
    stringRest '\x22' (escapeChar c ++ cs) =
      (stringRest '\x22' cs).map fun (s, rest) => (c :: s, rest) := by
  by_cases short : c ∈ ['\\', '\x22', '\n', '\r', '\t', '\x08', '\x0c', '\x0b']
  · fin_cases short <;> exact stringRest_escaped rfl
  by_cases null : c = '\x00'
  · subst null
    exact (stringRest_hex (show hexChar? ['0', '0'] = some '\x00' by decide)).1 rfl
  by_cases line : c = '\u2028'
  · subst line
    exact (stringRest_hex (show hexChar? ['2', '0', '2', '8'] = some '\u2028' by decide)).2 rfl
  by_cases paragraph : c = '\u2029'
  · subst paragraph
    exact (stringRest_hex (show hexChar? ['2', '0', '2', '9'] = some '\u2029' by decide)).2 rfl
  -- What is left is written as it is.
  simp only [mem_cons, not_mem_nil, or_false, not_or] at short
  have itself : escapeChar c = [c] := by
    simp [escapeChar, short, null, line, paragraph]
  rw [itself, singleton_append]
  exact stringRest_plain short.1 short.2.1 (by simp [isLineEnd, short, line, paragraph])

/-- What is written for a text is read as the text. -/
theorem stringRest_escape (s rest : List Char) :
    stringRest '\x22' (escape s ++ '\x22' :: rest) = some (s, rest) := by
  induction s with
  | nil => simp [escape]
  | cons c cs ih =>
    rw [escape, flatMap_cons, append_assoc, stringRest_escapeChar]
    exact congrArg (Option.map _) ih

/-- A written string is one token. -/
theorem token_string (s : String) (rest : List Char) :
    token names (stringText s ++ rest) = some (.string s, rest) := by
  have start : names.start '\x22' = false := names.start_ascii _ (by decide)
  rw [stringText, cons_append, cons_append]
  unfold token
  simp [start, stringRest_escape]

theorem Lexes.string (s : String) (rest : List Char) :
    Lexes names (stringText s) [.string s] rest :=
  Lexes.of_token (by decide) (token_string s rest)

end JexlScript.Script.Reading
