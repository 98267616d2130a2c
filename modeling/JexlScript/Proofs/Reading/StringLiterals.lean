import JexlScript.Proofs.Reading.Lexemes

/-!
# String literals

A string is written with eleven of its characters escaped. This may be done one
character after the other over the whole text, since what is put in for one of them
has none that comes later (`escape_eq_replacements`). The text that comes out stays
inside its quotes, and reading it gives the string back: see
`stringText_survives_reading`.
-/

namespace JexlScript.Script

open List

/-! ## Replacing one character after the other -/

/-- Replaces a character all over a text. -/
def replaceChar (c : Char) (text s : List Char) : List Char :=
  s.flatMap fun d => if d = c then text else [d]

/-- What a table puts in for a character. -/
def replacement (table : List (Char × List Char)) (c : Char) : List Char :=
  (table.lookup c).getD [c]

theorem replacement_cons (p : Char × List Char) (table : List (Char × List Char)) (c : Char) :
    replacement (p :: table) c = if c = p.1 then p.2 else replacement table c := by
  unfold replacement
  rw [lookup_cons]
  by_cases same : c = p.1
  · simp [same]
  · simp [same, beq_false_of_ne same]

theorem replacement_of_not_mem {table : List (Char × List Char)} {c : Char}
    (other : ∀ p ∈ table, p.1 ≠ c) : replacement table c = [c] := by
  induction table with
  | nil => rfl
  | cons p table ih =>
    obtain ⟨differs, others⟩ := forall_mem_cons.mp other
    rw [replacement_cons, if_neg differs.symm, ih others]

/-- Replacing one character after the other replaces each by its text, if no text holds a later
one. -/
theorem foldl_replaceChar {table : List (Char × List Char)}
    (apart : table.Pairwise fun p q => q.1 ∉ p.2) (s : List Char) :
    table.foldl (fun text p => replaceChar p.1 p.2 text) s = s.flatMap (replacement table) := by
  induction table generalizing s with
  | nil => exact (flatMap_singleton' s).symm
  | cons p table ih =>
    obtain ⟨later, apart⟩ := pairwise_cons.mp apart
    rw [foldl_cons, ih apart, replaceChar, flatMap_assoc]
    congr 1
    funext d
    rw [replacement_cons]
    split
    · -- what was put in is left alone from here on
      have kept : ∀ c ∈ p.2, replacement table c = [c] := fun c member =>
        replacement_of_not_mem fun q inside same => later q inside (same ▸ member)
      rw [flatMap_congr kept, flatMap_singleton']
    · exact flatMap_singleton _ _

/-- The characters that are escaped, in this order, and what is put in for each. -/
def escapes : List (Char × List Char) :=
  [('\\', ['\\', '\\']), ('\x22', ['\\', '\x22']), ('\n', ['\\', 'n']), ('\r', ['\\', 'r']),
    ('\t', ['\\', 't']), ('\x08', ['\\', 'b']), ('\x0c', ['\\', 'f']), ('\x0b', ['\\', 'v']),
    ('\x00', ['\\', 'x', '0', '0']), ('\u2028', ['\\', 'u', '2', '0', '2', '8']),
    ('\u2029', ['\\', 'u', '2', '0', '2', '9'])]

/-- A character is escaped as the table says. -/
theorem escapeChar_eq_replacement (c : Char) : escapeChar c = replacement escapes c := by
  simp only [escapes, replacement_cons]
  rfl

/-- Escaping character by character is replacing one character after the other. -/
theorem escape_eq_replacements (s : List Char) :
    escape s = escapes.foldl (fun text p => replaceChar p.1 p.2 text) s := by
  rw [foldl_replaceChar (by decide), escape]
  exact flatMap_congr fun c _ => escapeChar_eq_replacement c

/-! ## What a literal is made of -/

/-- A character is in the table or written as itself. -/
theorem escapeChar_cases (c : Char) :
    (c, escapeChar c) ∈ escapes ∨ escapeChar c = [c] ∧ ∀ p ∈ escapes, p.1 ≠ c := by
  rw [escapeChar_eq_replacement]
  by_cases known : ∀ p ∈ escapes, p.1 ≠ c
  · exact .inr ⟨replacement_of_not_mem known, known⟩
  · refine .inl ?_
    simp only [ne_eq, not_forall, Decidable.not_not] at known
    obtain ⟨p, member, rfl⟩ := known
    have each : ∀ p ∈ escapes, (p.1, replacement escapes p.1) ∈ escapes := by decide
    exact each p member

/-- Whether a text has a double quote that no backslash goes before, where a backslash
takes the character after it along. -/
def hasBareQuote : List Char → Bool
  | [] => false
  | '\\' :: _ :: cs => hasBareQuote cs
  | c :: cs => c = '\x22' || hasBareQuote cs

theorem hasBareQuote_escapeChar (c : Char) (cs : List Char) :
    hasBareQuote (escapeChar c ++ cs) = hasBareQuote cs := by
  rcases escapeChar_cases c with escaped | ⟨itself, other⟩
  · have each : ∀ p ∈ escapes, hasBareQuote (p.2 ++ cs) = hasBareQuote cs := by
      simp [escapes, hasBareQuote]
    exact each _ escaped
  · have backslash : c ≠ '\\' := (other ('\\', ['\\', '\\']) (by decide)).symm
    have quote : c ≠ '\x22' := (other ('\x22', ['\\', '\x22']) (by decide)).symm
    rw [itself, singleton_append, hasBareQuote.eq_3 c cs (by simp [backslash])]
    simp [quote]

/-- An escaped text holds no quote that would end it. -/
theorem hasBareQuote_escape (s : List Char) : hasBareQuote (escape s) = false := by
  induction s with
  | nil => rfl
  | cons c s ih =>
    rw [escape, flatMap_cons, hasBareQuote_escapeChar]
    exact ih

/-- An escaped text holds no line end. -/
theorem isLineEnd_escape {s : List Char} {d : Char} (member : d ∈ escape s) :
    Reading.isLineEnd d = false := by
  obtain ⟨c, _, inside⟩ := mem_flatMap.mp member
  rcases escapeChar_cases c with escaped | ⟨itself, other⟩
  · have each : ∀ p ∈ escapes, (p.2.all fun d => !Reading.isLineEnd d) = true := by decide
    simpa using all_eq_true.mp (each _ escaped) d inside
  · rw [itself, mem_singleton] at inside
    subst inside
    have differs (e : Char) (known : e ∈ escapes.map Prod.fst) : d ≠ e := by
      obtain ⟨p, member, rfl⟩ := mem_map.mp known
      exact (other p member).symm
    simp [Reading.isLineEnd, differs '\n' (by decide), differs '\r' (by decide),
      differs '\u2028' (by decide), differs '\u2029' (by decide)]

/-- Two strings with something behind them have one text only if they are the same. -/
theorem stringText_append_inj {s t : String} {rest rest' : List Char} :
    stringText s ++ rest = stringText t ++ rest' ↔ s = t ∧ rest = rest' := by
  refine ⟨fun same => ?_, by rintro ⟨rfl, rfl⟩; rfl⟩
  simp only [stringText, cons_append, append_assoc, nil_append, List.cons.injEq,
    true_and] at same
  have read := Reading.stringRest_escape s.toList rest
  rw [same, Reading.stringRest_escape] at read
  obtain ⟨strings, rests⟩ := Prod.mk.inj (Option.some.inj read)
  exact ⟨(String.toList_inj.mp strings).symm, rests.symm⟩

/-- The text of a string is that of replacing one character after the other. It has no
double quote that is not escaped and no end of a line, and behind an opening quote it is
read back as the string, up to a quote that is put behind it. So literals of different
strings differ, whatever stands behind them. -/
theorem stringText_survives_reading (s : String) :
    (Node.expr (.lit (.text s))).print? =
        some (String.ofList ('\x22' :: escape s.toList ++ ['\x22'])) ∧
      escape s.toList = escapes.foldl (fun text p => replaceChar p.1 p.2 text) s.toList ∧
      hasBareQuote (escape s.toList) = false ∧
      (∀ c ∈ escape s.toList, Reading.isLineEnd c = false) ∧
      (∀ rest, Reading.stringRest '\x22' (escape s.toList ++ '\x22' :: rest) =
        some (s.toList, rest)) ∧
      (∀ t, (Node.expr (.lit (.text s))).print? = (Node.expr (.lit (.text t))).print? ↔ s = t) ∧
      ∀ t rest rest', stringText s ++ rest = stringText t ++ rest' ↔ s = t ∧ rest = rest' := by
  have printed (s : String) :
      (Node.expr (.lit (.text s))).print? = some (String.ofList (stringText s)) := rfl
  refine ⟨printed s, escape_eq_replacements _, hasBareQuote_escape _, fun c => isLineEnd_escape,
    Reading.stringRest_escape _, fun t => ?_, fun t rest rest' => stringText_append_inj⟩
  rw [printed, printed, Option.some.injEq, String.ofList_inj]
  simpa using @stringText_append_inj s t [] []

end JexlScript.Script
