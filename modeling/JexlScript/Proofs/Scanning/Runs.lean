import JexlScript.Proofs.Scanning.Pieces

/-!
# How far a text is cut

`Token.Cuts` says that the start of a text has been cut into tokens, and what is
left of the text. A scan that succeeds has cut the whole text
(`scanFrom_eq_ok_iff`), and one that fails has cut it up to a character with which
no token starts (`scanFrom_eq_error_iff`).
-/

namespace JexlScript

open List

namespace Token

variable {ι : Type} {g : Grammar ι}

/-! ## Single steps -/

/-- Characters that are skipped belong to the token before. -/
theorem scanFrom_skip (g : Grammar ι) (position skip : Nat) (cs : List Char) :
    scanFrom g position skip cs = scanFrom g (position + skip) 0 (cs.drop skip) := by
  induction cs generalizing position skip with
  | nil => simp [scanFrom]
  | cons c cs ih =>
    cases skip with
    | zero => rfl
    | succ skip =>
      rw [scanFrom, ih, drop_succ_cons]
      congr 1
      omega

/-- Behind a token the scan goes on. -/
theorem scanFrom_token (position : Nat) {c : Char} {cs raw rest : List Char} {lexeme : Lexeme}
    (other : Text.isBlank c = false) (whole : c :: cs = raw ++ rest)
    (cut : next g c cs = .ok (lexeme, raw.length)) :
    scanFrom g position 0 (c :: cs) =
      (scanFrom g (position + raw.length) 0 rest).map
        (⟨lexeme, String.ofList raw, position⟩ :: ·) := by
  obtain ⟨raw', _, _, lengths, piece⟩ := next_piece cut
  obtain ⟨tail, rfl, rfl⟩ : ∃ tail, raw = c :: tail ∧ cs = tail ++ rest := by
    cases raw with
    | nil => exact absurd (length_eq_zero_iff.mp lengths.symm) piece.ne_nil
    | cons d tail =>
      obtain ⟨rfl, rfl⟩ := List.cons.inj whole
      exact ⟨tail, rfl, rfl⟩
  have skipped : scanFrom g (position + 1) ((c :: tail).length - 1) (tail ++ rest) =
      scanFrom g (position + (c :: tail).length) 0 rest := by
    rw [scanFrom_skip, length_cons, Nat.add_sub_cancel, drop_left]
    congr 1
    omega
  have taken : (c :: (tail ++ rest)).take (c :: tail).length = c :: tail := by
    simp
  rw [scanFrom]
  simp only [other, Bool.false_eq_true, if_false, cut, skipped, taken]
  cases scanFrom g (position + (c :: tail).length) 0 rest <;> rfl

/-! ## Runs -/

/-- The start of a text is cut into tokens; `rest` is left, and `position` counts
the characters before the text. -/
inductive Cuts (g : Grammar ι) :
    (position : Nat) → List Char → List Token → (rest : List Char) → Prop
  | stop (position : Nat) (rest : List Char) : Cuts g position rest [] rest
  | blank {position : Nat} {c : Char} {cs rest : List Char} {ts : List Token} :
      Text.isBlank c = true → Cuts g (position + 1) cs ts rest →
      Cuts g position (c :: cs) ts rest
  | token {position : Nat} {c : Char} {cs raw behind rest : List Char} {lexeme : Lexeme}
      {ts : List Token} : Text.isBlank c = false → c :: cs = raw ++ behind →
      next g c cs = .ok (lexeme, raw.length) → Cuts g (position + raw.length) behind ts rest →
      Cuts g position (c :: cs) (⟨lexeme, String.ofList raw, position⟩ :: ts) rest

/-- What is left is the end of the text. -/
theorem Cuts.suffix {position : Nat} {cs rest : List Char} {ts : List Token}
    (cuts : Cuts g position cs ts rest) : rest <:+ cs := by
  induction cuts with
  | stop => exact suffix_rfl
  | blank _ _ ih => exact ih.trans (suffix_cons _ _)
  | token _ whole _ _ ih => exact whole ▸ ih.trans (suffix_append _ _)

/-- The scan gives the tokens that are cut, and goes on with what is left. -/
theorem Cuts.scanFrom {position : Nat} {cs rest : List Char} {ts : List Token}
    (cuts : Cuts g position cs ts rest) :
    Token.scanFrom g position 0 cs =
      (Token.scanFrom g (position + (cs.length - rest.length)) 0 rest).map (ts ++ ·) := by
  induction cuts with
  | stop position rest =>
    rw [Nat.sub_self, Nat.add_zero]
    cases Token.scanFrom g position 0 rest <;> rfl
  | @blank position c cs rest ts blank cuts ih =>
    have bound := cuts.suffix.length_le
    have places : position + ((c :: cs).length - rest.length) =
        position + 1 + (cs.length - rest.length) := by
      rw [length_cons]
      omega
    rw [places, ← ih]
    simp [Token.scanFrom, blank]
  | @token position c cs raw behind rest lexeme ts other whole cut cuts ih =>
    have bound := cuts.suffix.length_le
    have places : position + ((c :: cs).length - rest.length) =
        position + raw.length + (behind.length - rest.length) := by
      rw [whole, length_append]
      omega
    rw [scanFrom_token position other whole cut, ih, places]
    cases Token.scanFrom g (position + raw.length + (behind.length - rest.length)) 0 rest <;> rfl

/-- Every text is cut to its end, or up to a character with which no token starts. -/
theorem exists_cuts (g : Grammar ι) (position : Nat) (cs : List Char) :
    ∃ ts rest, Cuts g position cs ts rest ∧
      (rest = [] ∨ ∃ c behind fault, rest = c :: behind ∧ Text.isBlank c = false ∧
        next g c behind = .error fault) := by
  induction size : cs.length using Nat.strongRecOn generalizing position cs with
  | _ size ih =>
    subst size
    cases cs with
    | nil => exact ⟨[], [], .stop _ _, .inl rfl⟩
    | cons c cs =>
      cases blank : Text.isBlank c with
      | true =>
        obtain ⟨ts, rest, cuts, ends⟩ :=
          ih cs.length (Nat.lt_succ_self _) (position + 1) cs rfl
        exact ⟨ts, rest, .blank blank cuts, ends⟩
      | false =>
        cases cut : next g c cs with
        | error fault =>
          exact ⟨[], c :: cs, .stop _ _, .inr ⟨c, cs, fault, rfl, blank, cut⟩⟩
        | ok found =>
          obtain ⟨lexeme, length⟩ := found
          obtain ⟨raw, behind, whole, rfl, piece⟩ := next_piece cut
          -- A token has a character at least, so what is left is shorter.
          have shorter : behind.length < (c :: cs).length := by
            have := length_pos_iff.mpr piece.ne_nil
            rw [whole, length_append]
            omega
          obtain ⟨ts, rest, cuts, ends⟩ :=
            ih behind.length shorter (position + raw.length) behind rfl
          exact ⟨_, rest, .token blank whole cut cuts, ends⟩

/-- The scan succeeds if it cuts the whole text. -/
theorem scanFrom_eq_ok_iff {position : Nat} {cs : List Char} {ts : List Token} :
    scanFrom g position 0 cs = .ok ts ↔ Cuts g position cs ts [] := by
  constructor
  · intro scanned
    obtain ⟨us, rest, cuts, rfl | ⟨c, behind, fault, rfl, other, failed⟩⟩ :=
      exists_cuts g position cs
    · rw [cuts.scanFrom] at scanned
      cases scanned
      simpa using cuts
    · rw [cuts.scanFrom] at scanned
      simp [scanFrom, other, failed, Except.map] at scanned
  · intro cuts
    rw [cuts.scanFrom]
    simp [scanFrom, Except.map]

/-- It fails where no token starts. -/
theorem scanFrom_eq_error_iff {position n : Nat} {cs : List Char} {fault : ScanFault} :
    scanFrom g position 0 cs = .error (fault, n) ↔
      ∃ ts c behind, Cuts g position cs ts (c :: behind) ∧ Text.isBlank c = false ∧
        next g c behind = .error fault ∧ n = position + (cs.length - (c :: behind).length) := by
  constructor
  · intro scanned
    obtain ⟨us, rest, cuts, rfl | ⟨c, behind, fault', rfl, other, failed⟩⟩ :=
      exists_cuts g position cs
    · rw [cuts.scanFrom] at scanned
      cases scanned
    · rw [cuts.scanFrom] at scanned
      simp only [scanFrom, other, failed, Except.map] at scanned
      cases scanned
      exact ⟨us, c, behind, cuts, other, failed, rfl⟩
  · rintro ⟨ts, c, behind, cuts, other, failed, rfl⟩
    rw [cuts.scanFrom]
    simp [scanFrom, other, failed, Except.map]

end Token

end JexlScript
