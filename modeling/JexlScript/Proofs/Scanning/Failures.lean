import JexlScript.Proofs.Scanning.Tiling

/-!
# How reading a text can fail

A text is read, or it is refused with an error that tells a place in it. The one
exception is a digit of another script where a token should start: it counts as a
digit, but starts no number (`Token.next_eq_foreignDigit_iff`). Main statement:
`Formula.readsOrRefuses_iff`, about grammars without an empty symbol, at which the
scan would not get on.
-/

namespace JexlScript

variable {ι : Type} {g : Grammar ι}

/-! ## Digits of other scripts -/

namespace Text

/-- A character is in one of two sets only, if their ranges are apart. -/
theorem CodePoints.contains_eq_false_of_apart {a b : CodePoints} {c : Char}
    (apart : ∀ p ∈ a, ∀ q ∈ b, p.2 < q.1 ∨ q.2 < p.1) (inside : a.contains c = true) :
    b.contains c = false := by
  obtain ⟨p, member, within⟩ := List.any_eq_true.mp inside
  refine List.any_eq_false.mpr fun q member' within' => ?_
  simp only [Bool.and_eq_true, decide_eq_true_eq] at within within'
  have := apart p member q member'
  omega

/-- No digit of any script is blank. -/
theorem isBlank_of_isDigit {c : Char} (digit : isDigit c = true) : isBlank c = false :=
  CodePoints.contains_eq_false_of_apart (by decide +kernel) digit

/-- Whether a character is a digit other than those from 0 to 9. -/
def isForeignDigit (c : Char) : Bool := isDigit c && !c.isDigit

end Text

namespace Token

/-- The scan stumbles on foreign digits, and on nothing else in this way. -/
theorem next_eq_foreignDigit_iff {c : Char} {cs : List Char} :
    next g c cs = .error .foreignDigit ↔ Text.isForeignDigit c = true := by
  have quotes : c = '\x27' ∨ c = '\x22' → Text.isDigit c = false := by
    rintro (rfl | rfl) <;> decide
  have point : Text.isDigit c = true → c ≠ '.' := by
    rintro digit rfl
    revert digit
    decide
  unfold next Text.isForeignDigit
  split_ifs with quote digit start
  · rw [quotes (by simpa using quote)]
    split <;> simp
  · rw [digit, Bool.true_and, Bool.not_eq_true', ← number?_eq_none_iff cs (point digit)]
    split <;> simp_all
  · simp [digit]
  · simp only [digit, Bool.false_and, Bool.false_eq_true, iff_false]
    split
    · split_ifs <;> simp
    · simp

/-- Without an empty symbol every token has a character. -/
theorem next_ne_endless (nonempty : "" ∉ g.elements.names) {c : Char} {cs : List Char} :
    next g c cs ≠ .error .endless := by
  have unregistered : g.elements.get? "" = none := by
    refine Option.eq_none_iff_forall_ne_some.mpr fun element found => nonempty ?_
    obtain ⟨before, after, same, _⟩ := List.lookup_eq_some_iff.mp found
    simp [Table.names, same]
  unfold next
  split_ifs
  · split <;> simp
  · split <;> simp
  · simp
  · generalize longestSymbol g (c :: cs) = text
    cases text with
    | nil => simp [unregistered]
    | cons d ds =>
      simp only [List.isEmpty_cons]
      split <;> simp

/-- Whether the scan comes to a digit of another script where a token should
start. -/
def MeetsForeignDigit (g : Grammar ι) (text : List Char) : Prop :=
  ∃ ts c rest, Cuts g 0 text ts (c :: rest) ∧ Text.isForeignDigit c = true

/-- Joining signs does not fail. -/
theorem tokenize_eq_error_iff {text : List Char} {failure : ScanFault × Nat} :
    tokenize g text = .error failure ↔ scanFrom g 0 0 text = .error failure := by
  unfold tokenize scan
  cases scanFrom g 0 0 text <;> simp [bind, Except.bind]

/-- A text meets a foreign digit just where the scan stumbles on one. -/
theorem tokenize_eq_foreignDigit_iff {text : List Char} :
    (∃ n, tokenize g text = .error (.foreignDigit, n)) ↔ MeetsForeignDigit g text := by
  simp only [tokenize_eq_error_iff, scanFrom_eq_error_iff, next_eq_foreignDigit_iff]
  constructor
  · rintro ⟨_, ts, c, rest, cuts, _, foreign, _⟩
    exact ⟨ts, c, rest, cuts, foreign⟩
  · rintro ⟨ts, c, rest, cuts, foreign⟩
    have digit : Text.isDigit c = true := (Bool.and_eq_true_iff.mp foreign).1
    exact ⟨_, ts, c, rest, cuts, Text.isBlank_of_isDigit digit, foreign, rfl⟩

theorem tokenize_ne_endless (nonempty : "" ∉ g.elements.names) {text : List Char} {n : Nat} :
    tokenize g text ≠ .error (.endless, n) := by
  intro failed
  obtain ⟨_, _, _, _, _, endless, _⟩ :=
    scanFrom_eq_error_iff.mp (tokenize_eq_error_iff.mp failed)
  exact next_ne_endless nonempty endless

/-- The scan fails at a character of the text. -/
theorem position_lt_of_tokenize_eq_error {text : List Char} {fault : ScanFault} {n : Nat}
    (failed : tokenize g text = .error (fault, n)) : n < text.length := by
  obtain ⟨ts, c, rest, cuts, _, _, rfl⟩ :=
    scanFrom_eq_error_iff.mp (tokenize_eq_error_iff.mp failed)
  have bound := cuts.suffix.length_le
  rw [List.length_cons] at bound ⊢
  omega

end Token

/-! ## Errors and their places -/

namespace Formula

/-- The parser fails at a token, or at the end of the text. -/
theorem position_le_of_ofTokens_eq_error {text : List Char} {tokens : List Token}
    {fault : ParseFault} (cut : Token.tokenize g text = .ok tokens)
    (failed : ofTokens g tokens = .error fault) :
    ∃ e, ReadFailure.ofParse text.length fault = .malformed e ∧ e.position ≤ text.length := by
  have stands := (Token.tokenize_placed cut).tiles.standsIn
  have found := (ofTokens_alike (P := fun t => t.StandsIn text) (fun _ _ _ _ => rfl) stands).2
    fault failed
  unfold ReadFailure.ofParse
  split
  · exact ⟨_, rfl, Nat.le_refl _⟩
  · next t is =>
      have inside := found t is
      have := inside.position_lt_stop
      have := inside.stop_le
      exact ⟨_, rfl, by simp only; omega⟩

/-- A text is read, or refused with an error that tells a place in it or its end. -/
def ReadsOrRefuses (g : Grammar ι) (text : String) : Prop :=
  (∃ f, Formula.parse g text = .ok f) ∨
    ∃ e, Formula.parse g text = .error (.malformed e) ∧ e.position ≤ text.length

/-- With a grammar that has no empty symbol, a text is read, or refused with an
error that tells a place in it, exactly when no foreign digit stands where a token
should start. -/
theorem readsOrRefuses_iff (g : Grammar ι) (nonempty : "" ∉ g.elements.names) (text : String) :
    ReadsOrRefuses g text ↔ ¬ Token.MeetsForeignDigit g text.toList := by
  rw [← Token.tokenize_eq_foreignDigit_iff, ReadsOrRefuses, ← String.length_toList]
  unfold Formula.parse JexlScript.tokenize
  cases cut : Token.tokenize g text.toList with
  | error failure =>
    obtain ⟨fault, n⟩ := failure
    have place := Token.position_lt_of_tokenize_eq_error cut
    have ends : fault ≠ .endless := by
      rintro rfl
      exact Token.tokenize_ne_endless nonempty cut
    cases fault <;> simp_all [bind, Except.bind, Except.mapError, ReadFailure.ofScan, place.le]
  | ok tokens =>
    cases read : ofTokens g tokens with
    | ok f => simp [bind, Except.bind, Except.mapError, read]
    | error fault =>
      obtain ⟨e, told, place⟩ := position_le_of_ofTokens_eq_error cut read
      simp [bind, Except.bind, Except.mapError, read, told, place]

/-- Inside a string, a raised digit is no start of a token. -/
theorem readsOrRefuses_iff_quoted :
    "" ∉ Grammar.stock.elements.names ∧
      (ReadsOrRefuses Grammar.stock "'²' + a" ↔
        ¬ Token.MeetsForeignDigit Grammar.stock "'²' + a".toList) ∧
      ¬ Token.MeetsForeignDigit Grammar.stock "'²' + a".toList := by
  have nonempty : "" ∉ Grammar.stock.elements.names := by decide +kernel
  have whole := readsOrRefuses_iff Grammar.stock nonempty "'²' + a"
  refine ⟨nonempty, whole, whole.mp (.inl ?_)⟩
  have read : (Formula.parse Grammar.stock "'²' + a").isOk = true := by decide +kernel
  cases result : Formula.parse Grammar.stock "'²' + a" with
  | ok f => exact ⟨f, rfl⟩
  | error why => simp [result, Except.isOk, Except.toBool] at read

/-- A raised digit is neither read nor refused. -/
theorem not_readsOrRefuses_raised : ¬ ReadsOrRefuses Grammar.stock "²" := by
  have cut : tokenize Grammar.stock "²" = .error .foreignDigit := by
    decide +kernel
  have failed : Formula.parse Grammar.stock "²" = .error .foreignDigit := by
    simp only [Formula.parse, cut, bind, Except.bind]
  rintro (⟨f, read⟩ | ⟨e, refused, _⟩)
  · rw [failed] at read
    cases read
  · rw [failed] at refused
    cases refused

end Formula

end JexlScript
