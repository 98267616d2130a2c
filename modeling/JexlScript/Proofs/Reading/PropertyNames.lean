import JexlScript.Proofs.Reading.InPlace

/-!
# Names of properties

A key is written as a name where it looks like one, and as a string otherwise. The check
for a name lets a line feed pass at the end of the key, so that such a key is written as a
name and a line end, which denotes the key without its line feed. `KeyToken` has the three
forms, `propertyName?_keyText` says what they denote: all other keys are denoted by what is
written for them, and objects with different keys are never printed alike.
-/

namespace JexlScript.Script

open List Reading

variable {names : NameClass}

/-- The key that a text denotes as the name of a property: a name denotes itself, a string
its characters. Blanks and line ends may follow. -/
def Reading.propertyName? (names : NameClass) (text : List Char) : Option String := do
  let (t, rest) ← token names text
  let (k, _) ← propertyKey [t]
  if rest.all fun c => isBlank c || isLineEnd c then some k else none

/-! ## The forms of keys -/

/-- The token that a key is written as, and what stands behind it. -/
inductive KeyToken : String → Token → List Char → Prop
  | name {k : String} (name : NameClass.ascii.isName k = true) : KeyToken k (.word k) []
  | line {w : String} (name : NameClass.ascii.isName w = true) :
      KeyToken (w ++ "\n") (.word w) ['\n']
  | quoted {k : String} (other : isPlainKey k.toList = false) : KeyToken k (.string k) []

/-- A key is written bare if it is a name, or a name and a line feed. -/
theorem isPlainKey_iff (k : String) : isPlainKey k.toList = true ↔
    NameClass.ascii.isName k = true ∨
      ∃ w, NameClass.ascii.isName w = true ∧ k = w ++ "\n" := by
  rw [NameClass.isName]
  cases chars : k.toList with
  | nil =>
    simp only [isPlainKey, Bool.false_eq_true, false_or, false_iff, not_exists, not_and]
    rintro w _ rfl
    simp at chars
  | cons c cs =>
    simp only [isPlainKey, Bool.and_eq_true, Bool.or_eq_true, beq_iff_eq, and_or_left]
    -- The test lets the last character be a line feed.
    refine or_congr Iff.rfl ⟨?_, ?_⟩
    · rintro ⟨start, last, parts⟩
      refine ⟨String.ofList (c :: cs.dropLast), ?_, String.toList_inj.mp ?_⟩
      · rw [NameClass.isName, String.toList_ofList]
        exact Bool.and_eq_true_iff.mpr ⟨start, parts⟩
      · have split := dropLast_append_getLast? '\n' last
        simp [chars, split]
    · rintro ⟨w, isName, rfl⟩
      obtain ⟨d, ds, wordChars, _⟩ := isName_head isName
      rw [String.toList_append, wordChars, cons_append, List.cons.injEq] at chars
      obtain ⟨rfl, rfl⟩ := chars
      rw [NameClass.isName, wordChars, Bool.and_eq_true] at isName
      refine ⟨isName.1, getLast?_concat .., ?_⟩
      exact (congrArg (List.all · isKeyPart) dropLast_concat).trans isName.2

/-- Every key is written as a token, perhaps with a line feed behind it. -/
theorem exists_keyToken (k : String) : ∃ t tail, KeyToken k t tail := by
  by_cases plain : isPlainKey k.toList = true
  · rcases (isPlainKey_iff k).mp plain with isName | ⟨w, isName, rfl⟩
    · exact ⟨_, _, .name isName⟩
    · exact ⟨_, _, .line isName⟩
  · exact ⟨_, _, .quoted (Bool.eq_false_of_not_eq_true plain)⟩

theorem keyText_line {w : String} (isName : NameClass.ascii.isName w = true) :
    keyText (w ++ "\n") = w.toList ++ ['\n'] := by
  rw [keyText, if_pos ((isPlainKey_iff _).mpr (Or.inr ⟨w, isName, rfl⟩)), String.toList_append]
  rfl

/-- What is written for a key is that token. -/
theorem KeyToken.token {k : String} {t : Token} {tail rest : List Char} (h : KeyToken k t tail)
    (names : NameClass) (stop : EndsName names rest) :
    Reading.token names (keyText k ++ rest) = some (t, tail ++ rest) := by
  cases h with
  | name isName =>
    rw [keyText_of_isName isName]
    exact token_word (isName_ascii isName) stop
  | line isName =>
    have feed : EndsName names ('\n' :: rest) := by
      intro c hc
      obtain rfl : '\n' = c := by simpa using hc
      exact names.part_ascii '\n' (by decide)
    rw [keyText_line isName, append_assoc]
    exact token_word (isName_ascii isName) feed
  | quoted other =>
    rw [keyText, other, if_neg (by decide)]
    exact token_string _ rest

/-- A token and what is left tell the key. -/
theorem KeyToken.unique {k l : String} {t : Token} {tail : List Char} (hk : KeyToken k t tail)
    (hl : KeyToken l t tail) : k = l := by
  cases hk <;> cases hl <;> rfl

theorem endsName_nil : EndsName names [] := fun _ h => absurd h (by simp)

theorem endsName_colon (rest : List Char) : EndsName names (':' :: rest) := by
  intro c hc
  obtain rfl : ':' = c := by simpa using hc
  exact names.part_ascii ':' (by decide)

/-- What is written for a key denotes what its token does. -/
theorem KeyToken.propertyName? {k : String} {t : Token} {tail : List Char}
    (h : KeyToken k t tail) :
    Reading.propertyName? names (keyText k) = (propertyKey [t]).map Prod.fst := by
  have taken := h.token names endsName_nil
  rw [append_nil, append_nil] at taken
  rw [Reading.propertyName?, taken]
  cases h <;> rfl

/-- Up to the colon different keys are written differently. -/
theorem keyText_colon_inj {k l : String} {r s : List Char}
    (same : keyText k ++ ':' :: r = keyText l ++ ':' :: s) : k = l ∧ r = s := by
  obtain ⟨t, tail, hk⟩ := exists_keyToken k
  obtain ⟨u, end', hl⟩ := exists_keyToken l
  have tokens := hk.token .ascii (endsName_colon r)
  rw [same, hl.token .ascii (endsName_colon s)] at tokens
  obtain ⟨rfl, rests⟩ : u = t ∧ end' ++ ':' :: s = tail ++ ':' :: r := by simpa using tokens
  -- what follows the token is a colon or a line feed
  obtain ⟨rfl, rfl⟩ : tail = end' ∧ r = s := by
    cases hk <;> cases hl <;> simp_all
  exact ⟨hk.unique hl, rfl⟩

/-! ## Objects -/

/-- The text of an object from behind a property on. -/
def furtherProps : List (String × Expr) → List Char
  | [] => ['\x7d']
  | p :: ps => ',' :: ' ' :: propText p ++ furtherProps ps

theorem commas_props (p : String × Expr) (ps : List (String × Expr)) :
    commas ((p :: ps).map propText) ++ ['\x7d'] = propText p ++ furtherProps ps := by
  induction ps generalizing p with
  | nil => rfl
  | cons q ps ih => simpa [commas, furtherProps] using ih q

theorem furtherProps_head (ps : List (String × Expr)) :
    ∃ c cs, furtherProps ps = c :: cs ∧ c ∈ [',', ')', ']', '\x7d'] := by
  cases ps with
  | nil => exact ⟨_, _, rfl, by decide⟩
  | cons p ps => exact ⟨_, _, rfl, by decide⟩

/-- Two properties with one text have the same key, and the same text follows them. -/
theorem propText_append_inj {p q : String × Expr} {t u : Expr} (hp : p.2.ReadsInPlace names t)
    (hq : q.2.ReadsInPlace names u) {ps qs : List (String × Expr)}
    (same : propText p ++ furtherProps ps = propText q ++ furtherProps qs) :
    p.1 = q.1 ∧ furtherProps ps = furtherProps qs := by
  obtain ⟨c, r, behind, hc⟩ := furtherProps_head ps
  obtain ⟨d, s, behind', hd⟩ := furtherProps_head qs
  rw [behind, behind', propText, propText, append_assoc, append_assoc,
    cons_append, cons_append] at same
  obtain ⟨key, values⟩ := keyText_colon_inj same
  rw [behind, behind']
  exact ⟨key, hp.append_inj hq hc hd (List.cons.inj values).2⟩

/-- Objects with one text have the same keys from behind a property on. -/
theorem furtherProps_inj {ps qs : List (String × Expr)} {ts us : List Expr}
    (hp : AllInPlace names (ps.map Prod.snd) ts) (hq : AllInPlace names (qs.map Prod.snd) us)
    (same : furtherProps ps = furtherProps qs) : ps.map Prod.fst = qs.map Prod.fst := by
  induction ps generalizing qs ts us with
  | nil =>
    cases qs with
    | nil => rfl
    | cons q qs => simp [furtherProps] at same
  | cons p ps ih =>
    cases qs with
    | nil => simp [furtherProps] at same
    | cons q qs =>
      obtain ⟨_, _, first, more, -⟩ := forall₂_cons_left_iff.mp hp
      obtain ⟨_, _, first', more', -⟩ := forall₂_cons_left_iff.mp hq
      obtain ⟨key, rest⟩ := propText_append_inj first first'
        (by simpa [furtherProps] using same)
      rw [map_cons, map_cons, key, ih more more' rest]

theorem keyText_head (k : String) : ∃ c cs, keyText k = c :: cs ∧ c ≠ '\x7d' := by
  rw [keyText]
  split
  case isTrue plain =>
      cases chars : k.toList with
      | nil => simp [chars, isPlainKey] at plain
      | cons c cs =>
        refine ⟨c, cs, rfl, ?_⟩
        rintro rfl
        simp [chars, isPlainKey, isKeyStart] at plain
  case isFalse => exact ⟨_, _, rfl, by decide⟩

theorem props_text_ne (p : String × Expr) (ps : List (String × Expr)) :
    propText p ++ furtherProps ps ≠ ['\x7d'] := by
  obtain ⟨c, cs, key, other⟩ := keyText_head p.1
  intro same
  rw [propText, key] at same
  exact other (List.cons.inj same).1

/-- Objects with one text have the same keys. -/
theorem object_keys {ps qs : List (String × Expr)} {ts us : List Expr}
    (hp : AllInPlace names (ps.map Prod.snd) ts) (hq : AllInPlace names (qs.map Prod.snd) us)
    (same : (Expr.object ps).text = (Expr.object qs).text) :
    ps.map Prod.fst = qs.map Prod.fst := by
  rw [Expr.text_object, Expr.text_object, cons_append, cons_append, List.cons.injEq]
    at same
  cases ps with
  | nil =>
    cases qs with
    | nil => rfl
    | cons q qs => exact absurd ((commas_props q qs).symm.trans same.2.symm) (props_text_ne q qs)
  | cons p ps =>
    cases qs with
    | nil => exact absurd ((commas_props p ps).symm.trans same.2) (props_text_ne p ps)
    | cons q qs =>
      refine furtherProps_inj hp hq ?_
      simp only [furtherProps, cons_append, ← commas_props, same.2]

theorem AllInPlace.propsWritable : ∀ {ps : List (String × Expr)} {ts : List Expr},
    AllInPlace names (ps.map Prod.snd) ts → Script.propsWritable ps = true
  | [], _, _ => rfl
  | p :: ps, _, .cons first more => by
    rw [Script.propsWritable, first.isWritable, AllInPlace.propsWritable more]
    rfl

/-- What is written for a key denotes it, unless the key is a name with a line feed behind
it: then it denotes the name alone. All the same, objects whose texts are alike have the same
keys. -/
theorem propertyName?_keyText (names : NameClass) :
    (∀ k, propertyName? names (keyText k) = some k ↔
      ∀ w, NameClass.ascii.isName w = true → k ≠ w ++ "\n") ∧
    (∀ w, NameClass.ascii.isName w = true →
      propertyName? names (keyText (w ++ "\n")) = some w) ∧
    ∀ ps qs ts us, AllInPlace names (ps.map Prod.snd) ts → AllInPlace names (qs.map Prod.snd) us →
      ∃ text text', (Node.expr (.object ps)).print? = some text ∧
        (Node.expr (.object qs)).print? = some text' ∧
        (text = text' → ps.map Prod.fst = qs.map Prod.fst) := by
  have feed {w : String} (isName : NameClass.ascii.isName w = true) :
      propertyName? names (keyText (w ++ "\n")) = some w := (KeyToken.line isName).propertyName?
  refine ⟨fun k => ⟨?_, fun other => ?_⟩, fun w => feed, ?_⟩
  · rintro denotes w isName rfl
    have longer : w = w ++ "\n" := Option.some.inj ((feed isName).symm.trans denotes)
    simpa using congrArg String.length longer
  · obtain ⟨t, tail, form⟩ := exists_keyToken k
    rw [form.propertyName?]
    cases form with
    | name | quoted => rfl
    | line isName => exact absurd rfl (other _ isName)
  · intro ps qs ts us hp hq
    refine ⟨_, _, if_pos hp.propsWritable, if_pos hq.propsWritable, fun same => ?_⟩
    exact object_keys hp hq (String.ofList_injective same)

/-- A key with a quote and a line feed is denoted, a name with a line feed is not, and the
name and the name with a line feed make different objects. -/
theorem propertyName?_keyText_lines :
    AllInPlace .ascii [.ident "x"] [.ident "x"] ∧ NameClass.ascii.isName "b" = true ∧
    propertyName? .ascii (keyText "b\"\n") = some "b\"\n" ∧
    propertyName? .ascii (keyText "b\n") = some "b" ∧
    (Node.expr (.object [("b", .ident "x")])).print? ≠
      (Node.expr (.object [("b\n", .ident "x")])).print? := by
  obtain ⟨denotes, feed, objects⟩ := propertyName?_keyText .ascii
  have value : AllInPlace .ascii [.ident "x"] [.ident "x"] := allInPlace _ (by decide)
  have isName : NameClass.ascii.isName "b" = true := by decide
  refine ⟨value, isName, (denotes _).mpr ?_, feed _ isName, ?_⟩
  · rintro w isName same
    obtain rfl : "b\"" = w := (String.append_left_inj "\n").mp same
    exact absurd isName (by decide)
  · obtain ⟨text, text', printed, printed', keys⟩ :=
      objects [("b", .ident "x")] [("b\n", .ident "x")] _ _ value value
    rw [printed, printed']
    exact fun same => absurd (keys (Option.some.inj same)) (by decide)

/-- A line feed at the end of a key is lost. -/
theorem key_loses_line_feed :
    (Node.expr (.object [("a\n", .lit (.int 1))])).print? = some "\x7ba\n: 1\x7d" ∧
      propertyName? .ascii (keyText "a\n") = some "a" :=
  ⟨by decide, KeyToken.propertyName? (.line (w := "a") (by decide))⟩

end JexlScript.Script
