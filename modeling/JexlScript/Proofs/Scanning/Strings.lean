import JexlScript.Formula.Parser
import JexlScript.Proofs.Scanning.Runs

/-!
# Strings between quotes

Every string can be written between quotes of either kind: a backslash goes before
each quote of that kind and before each other backslash. `Token.scanFrom_written`
says that such a string is read back as it was, whatever follows it.
-/

namespace JexlScript

open List

namespace Token

variable {ι : Type} {g : Grammar ι} {quote : Char}

/-- A character between quotes. -/
def writtenChar (quote c : Char) : List Char :=
  if c = '\\' ∨ c = quote then ['\\', c] else [c]

/-- A string between quotes. -/
def written (quote : Char) (s : String) : List Char :=
  quote :: (s.toList.flatMap (writtenChar quote) ++ [quote])

theorem string?_quote (other : quote ≠ '\\') (rest : List Char) :
    string? quote (quote :: rest) = some ([], 1) := by
  cases rest with
  | nil => simp [string?]
  | cons c rest => simp [string?, other]

/-- A written character is read back. -/
theorem string?_writtenChar (c : Char) {tail : List Char} (more : tail ≠ []) :
    string? quote (writtenChar quote c ++ tail) =
      (string? quote tail).map fun (value, length) =>
        (c :: value, length + (writtenChar quote c).length) := by
  unfold writtenChar
  split
  · next escaped =>
      rcases escaped with rfl | rfl
      · simp [string?]
      · simp [string?]
  · next plain =>
      rw [not_or] at plain
      obtain ⟨d, tail, rfl⟩ := exists_cons_of_ne_nil more
      simp [string?, plain.1, plain.2]

/-- Written characters are read back up to the quote. -/
theorem string?_written (other : quote ≠ '\\') (s rest : List Char) :
    string? quote (s.flatMap (writtenChar quote) ++ quote :: rest) =
      some (s, (s.flatMap (writtenChar quote)).length + 1) := by
  induction s with
  | nil => exact string?_quote other rest
  | cons c s ih =>
    rw [flatMap_cons, append_assoc, string?_writtenChar c (by simp), ih]
    simp only [Option.map_some, length_append, Option.some.injEq, Prod.mk.injEq, true_and]
    omega

theorem ne_backslash (quotes : quote = '\x27' ∨ quote = '\x22') : quote ≠ '\\' := by
  rcases quotes with rfl | rfl
  · decide
  · decide

/-- A written string is one token. -/
theorem next_written (quotes : quote = '\x27' ∨ quote = '\x22') (s : String) (rest : List Char) :
    next g quote (s.toList.flatMap (writtenChar quote) ++ quote :: rest) =
      .ok (.literal (.text s), (written quote s).length) := by
  have opens : (decide (quote = '\x27') || decide (quote = '\x22')) = true := by simpa using quotes
  rw [next, if_pos opens, string?_written (ne_backslash quotes)]
  simp [written]

/-- A string that is written between quotes is cut off as one literal, with its own
value and spelling, and the scan goes on behind its closing quote, whatever comes
there. Alone it is a formula. -/
theorem scanFrom_written (g : Grammar ι) (quotes : quote = '\x27' ∨ quote = '\x22') (s : String)
    (position : Nat) (rest : List Char) :
    string? quote (s.toList.flatMap (writtenChar quote) ++ quote :: rest) =
        some (s.toList, (s.toList.flatMap (writtenChar quote)).length + 1) ∧
      scanFrom g position 0 (written quote s ++ rest) =
        (scanFrom g (position + (written quote s).length) 0 rest).map
          (⟨.literal (.text s), String.ofList (written quote s), position⟩ :: ·) ∧
      Formula.parse g (String.ofList (written quote s)) = .ok (.literal (.text s)) := by
  have cut (position : Nat) (rest : List Char) :
      scanFrom g position 0 (written quote s ++ rest) =
        (scanFrom g (position + (written quote s).length) 0 rest).map
          (⟨.literal (.text s), String.ofList (written quote s), position⟩ :: ·) := by
    have whole : written quote s ++ rest =
        quote :: (s.toList.flatMap (writtenChar quote) ++ quote :: rest) := by
      simp [written]
    rw [whole]
    refine scanFrom_token position ?_ whole.symm (next_written quotes s rest)
    rcases quotes with rfl | rfl
    · decide
    · decide
  refine ⟨string?_written (ne_backslash quotes) _ _, cut position rest, ?_⟩
  have tokens : tokenize g (written quote s) =
      .ok [⟨.literal (.text s), String.ofList (written quote s), 0⟩] := by
    have alone := cut 0 []
    rw [List.append_nil] at alone
    rw [tokenize, scan, alone]
    rfl
  rw [Formula.parse, JexlScript.tokenize, String.toList_ofList, tokens]
  rfl

/-- Backslashes and quotes of both kinds, before a text that goes on with a quote. -/
theorem scanFrom_written_backslashes :
    String.ofList (written '\x27' "\\'\"\\") = "'\\\\\\'\"\\\\'" ∧
      scanFrom Grammar.stock 7 0 (written '\x27' "\\'\"\\" ++ ['\x27', '\x27']) =
        .ok [⟨.literal (.text "\\'\"\\"), "'\\\\\\'\"\\\\'", 7⟩, ⟨.literal (.text ""), "''", 16⟩] := by
  have first := (scanFrom_written Grammar.stock (.inl rfl) "\\'\"\\" 7 ['\x27', '\x27']).2.1
  refine ⟨by decide, ?_⟩
  rw [first]
  decide +kernel

end Token

end JexlScript
