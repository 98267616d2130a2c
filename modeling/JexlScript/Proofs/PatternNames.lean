import JexlScript.Proofs.FilterScope
import JexlScript.Proofs.Reading.InPlace
import JexlScript.Proofs.WrittenScripts

/-!
# Names that a relative filter binds

The function of a relative filter binds the relative names of its predicate as they
are spelled. All of them are words, so the pattern that is printed is one of words;
but a word may be reserved in scripts. `filter_pattern_read_iff` says that the
parameters of the function are read back exactly if none of the names is, and so is the
whole function where its body is legible; `filter_pattern_refused` is a filter where one
of the names is reserved.
-/

namespace JexlScript

open List Script Script.Reading

/-- Names may be made of whatever the words of formulas are made of. -/
def Script.Reading.NameClass.HasWords (names : NameClass) : Prop :=
  ∀ c, (Token.isWordStart c = true → names.start c = true) ∧
    (Token.isWordPart c = true → names.part c = true)

/-- A word of a formula is a name of a script. -/
theorem isName_of_isWord {names : NameClass} (has : names.HasWords) {n : String}
    (word : Token.isWord n.toList = true) : names.isName n = true := by
  unfold NameClass.isName
  cases chars : n.toList with
  | nil => simp [chars, Token.isWord] at word
  | cons c cs =>
    simp only [chars, Token.isWord, Bool.and_eq_true, all_eq_true] at word
    simp only [Bool.and_eq_true, all_eq_true]
    exact ⟨(has c).1 word.1, fun d inside => (has d).2 (word.2 d inside)⟩

/-! ## Reading a pattern -/

/-- A reserved word among further names of a pattern is refused. -/
theorem moreBindings_refused {ns : List String} (rest : List Script.Reading.Token)
    (refused : ∃ n ∈ ns, n ∈ reservedWords) :
    moreBindings (ns.flatMap (fun n => [.sign ",", .word n]) ++ .sign "\x7d" :: rest) = none := by
  induction ns with
  | nil => simp at refused
  | cons n ns ih =>
    rw [flatMap_cons]
    by_cases reserved : n ∈ reservedWords
    · simp [moreBindings, reserved]
    · have later : ∃ m ∈ ns, m ∈ reservedWords := by simpa [reserved] using refused
      simp [moreBindings, reserved, ih later]

/-- A reserved word in a pattern is refused. -/
theorem bindings_refused {ns : List String} (rest : List Script.Reading.Token)
    (refused : ∃ n ∈ ns, n ∈ reservedWords) :
    bindings (commaTokens (ns.map fun n => [.word n]) ++ .sign "\x7d" :: rest) = none := by
  cases ns with
  | nil => simp at refused
  | cons n ns =>
    rw [map_cons, commaTokens_cons, flatMap_map]
    by_cases reserved : n ∈ reservedWords
    · simp [bindings, expect, binding, reserved]
    · have later : ∃ m ∈ ns, m ∈ reservedWords := by simpa [reserved] using refused
      simp [bindings, expect, binding, reserved, moreBindings_refused rest later]

/-- A pattern is read back if none of its names is reserved, and else refused. -/
theorem parameters_pattern {names : NameClass} {ns : List String}
    (each : ∀ n ∈ ns, names.isName n = true) (rest : List Script.Reading.Token) :
    parameters (paramsTokens [.pattern ns] ++ .sign "=>" :: rest) =
      if ∀ n ∈ ns, n ∉ reservedWords then some ([.pattern ns], rest) else none := by
  split
  · next free =>
      have legible : ([Param.pattern ns].all (·.isLegible names)) = true := by
        simpa [Param.isLegible, NameClass.isIdentifier] using fun n h => ⟨each n h, free n h⟩
      exact parameters_read rest legible
  · next refused =>
      have refused : ∃ n ∈ ns, n ∈ reservedWords := by simpa using refused
      rw [paramsTokens, parenTokens, append_assoc, cons_append, parameters, expect_self]
      simp [commaTokens, Param.tokens, expect, parameter, bindings_refused _ refused]

/-- A function with a pattern and a legible body is read back from its text, but only
if its pattern is. -/
theorem read_arrow_pattern {names : NameClass} {ns : List String} {body : Expr}
    (each : ∀ n ∈ ns, names.isName n = true) (legible : body.isLegible names = true)
    (brace : (body.isObject || !body.leftmost.isObject) = true) :
    Reading.read names (Expr.arrow [.pattern ns] body).text =
      if ∀ n ∈ ns, n ∉ reservedWords then some (Expr.arrow [.pattern ns] body).asRead
      else none := by
  split
  · next free =>
      have named : ns.all names.isIdentifier = true := by
        simpa [NameClass.isIdentifier] using fun n h => ⟨each n h, free n h⟩
      have whole : (Expr.arrow [.pattern ns] body).isLegible names = true := by
        simp [Expr.isLegible, Param.isLegible, named, legible, brace]
      exact (Expr.readsInPlace _ whole).read_text
  · next refused =>
      have lexed : Lexes names (Expr.arrow [.pattern ns] body).text
          (Expr.arrow [.pattern ns] body).tokens [] :=
        Lexes.arrow (fun _ => Lexes.parens (Lexes.pattern each)) (body.legible legible).lexes
          (by simp [Expr.Follows])
      -- the arrow is found behind the parameters, so nothing else is tried for them
      rw [Reading.read, lexed.tokens_eq, Option.bind_eq_bind, Option.bind_some, Expr.tokens,
        assignment, startsArrow_paramsTokens, parameters_pattern each, if_neg refused]
      rfl

/-! ## The pattern of a filter -/

namespace Formula

/-- The parts of formulas in a list are in the list. -/
def Closed (fs : List Formula) : Prop := ∀ f ∈ fs, f.parts ⊆ fs

/-- A formula may be put before its own parts. -/
theorem Closed.cons {f : Formula} {fs : List Formula} (same : f.parts = f :: fs)
    (closed : Closed fs) : Closed (f :: fs) := by
  refine forall_mem_cons.mpr ⟨same ▸ List.Subset.refl _, fun p inside => ?_⟩
  exact subset_cons_of_subset f (closed p inside)

theorem Closed.append {fs fs' : List Formula} (left : Closed fs) (right : Closed fs') :
    Closed (fs ++ fs') := by
  refine forall_mem_append.mpr ⟨fun p inside => ?_, fun p inside => ?_⟩
  · exact subset_append_of_subset_left _ (left p inside)
  · exact subset_append_of_subset_right _ (right p inside)

mutual

/-- With a part, a formula has the parts of the part. -/
theorem parts_closed : ∀ f : Formula, Closed f.parts
  | .literal _ | .root _ _ | .stray _ => .cons rfl (by simp [Closed])
  | .field e _ _ | .unary _ e => .cons rfl e.parts_closed
  | .binary _ l r | .filter l r _ => .cons rfl (l.parts_closed.append r.parts_closed)
  | .conditional t c a =>
    .cons rfl ((t.parts_closed.append c.parts_closed).append a.parts_closed)
  | .array es | .call _ _ es => .cons rfl (listParts_closed es)
  | .object ps => .cons rfl (entryParts_closed ps)

theorem listParts_closed : ∀ es : List Formula, Closed (listParts es)
  | [] => by simp [Closed, listParts]
  | e :: es => e.parts_closed.append (listParts_closed es)

theorem entryParts_closed : ∀ ps : List (String × Formula), Closed (entryParts ps)
  | [] => by simp [Closed, entryParts]
  | (_, e) :: ps => e.parts_closed.append (entryParts_closed ps)

end

end Formula

/-- The function of a relative filter of a text binds the relative names of the
predicate, each once. They are words, so its parameters are printed as a pattern of
words, and these are read back if and only if none of them is reserved. So is the whole
function, if its body is legible and does not start like a block. -/
theorem filter_pattern_read_iff (o : Options) {text : String} {f s e : Formula}
    (parsed : Formula.parse Grammar.stock text = .ok f) (part : .filter s e true ∈ f.parts)
    {names : NameClass} (has : names.HasWords) :
    ((o.context Grammar.stock).lower (.filter s e true)).Gives fun script =>
      ∃ (s' : Expr) (ns : List String) (e' : Expr),
        script = s'.invoke "filter" [.arrow [.pattern ns] e'] ∧ ns.Nodup ∧
        (∀ n, n ∈ ns ↔ .root n true ∈ e.parts) ∧
        (∀ rest, Lexes names (paramsText [.pattern ns]) (paramsTokens [.pattern ns]) rest) ∧
        (∀ rest, parameters (paramsTokens [.pattern ns] ++ .sign "=>" :: rest) =
          if ∀ n ∈ ns, n ∉ reservedWords then some ([.pattern ns], rest) else none) ∧
        (e'.isLegible names = true → (e'.isObject || !e'.leftmost.isObject) = true →
          Reading.read names (Expr.arrow [.pattern ns] e').text =
            if ∀ n ∈ ns, n ∉ reservedWords then some (Expr.arrow [.pattern ns] e').asRead
            else none) := by
  have filter : (Formula.filter s e true).Built Grammar.stock :=
    (Formula.parse_built parsed).of_mem_parts _ part
  have built : e.Built Grammar.stock :=
    filter.of_mem_parts _ (.tail _ (List.mem_append_right _ e.self_mem_parts))
  obtain ⟨ns, scanned, distinct, taken⟩ := built.relativeNames
  -- The names are words of the text, so each is an identifier unless it is reserved.
  have each : ∀ n ∈ ns, names.isName n = true := by
    intro n inside
    have root : .root n true ∈ f.parts :=
      f.parts_closed _ part (.tail _ (List.mem_append_right _ ((taken n).mp inside)))
    exact isName_of_isWord has (Formula.parse_spelled parsed _ root).2.2
  have subject : ((o.context Grammar.stock).lower s).Gives fun _ => True := fun _ _ _ _ => trivial
  have predicate : ((o.context Grammar.stock).lower e).Gives fun _ => True := fun _ _ _ _ => trivial
  refine (Context.filter_gives scanned subject predicate).mono ?_
  rintro _ ⟨s', e', _, _, rfl⟩
  exact ⟨s', ns, e', rfl, distinct, taken, fun rest => Lexes.parens (Lexes.pattern each),
    parameters_pattern each, read_arrow_pattern each⟩

/-- Among ASCII characters the word starts are those of names in scripts. -/
theorem isWordStart_ascii (c : Char) (plain : c.toNat < 128) :
    Token.isWordStart c = (c.isAlpha || c == '_' || c == '$') := by
  have other : decide (192 ≤ c.toNat) = false := by simpa using by omega
  simp [Token.isWordStart, other]

theorem isWordPart_ascii (c : Char) (plain : c.toNat < 128) :
    Token.isWordPart c = (c.isAlphanum || c == '_' || c == '$') := by
  simp only [Token.isWordPart, isWordStart_ascii c plain, Char.isAlphanum]
  ac_rfl

/-- A word may go on with whatever it may start with. -/
theorem isWordPart_of_isWordStart (c : Char) (start : Token.isWordStart c = true) :
    Token.isWordPart c = true := by
  simp [Token.isWordPart, start]

/-- The names of formulas and no others. -/
def Script.Reading.NameClass.words : NameClass where
  start := Token.isWordStart
  part := Token.isWordPart
  part_of_start := isWordPart_of_isWordStart
  start_ascii := isWordStart_ascii
  part_ascii := isWordPart_ascii

/-- A relative name with letters that scripts allow in names as well. -/
theorem filter_pattern_read_iff_words : ∃ f s e script journal,
    Formula.parse Grammar.stock "rows[.größe > 1]" = .ok f ∧ .filter s e true ∈ f.parts ∧
      ((Options.usual.context Grammar.stock).lower (.filter s e true)).run Journal.empty =
        (.ok script, journal) ∧
      ∃ (s' : Expr) (ns : List String) (e' : Expr),
        script = s'.invoke "filter" [.arrow [.pattern ns] e'] ∧ ns = ["größe"] ∧
        parameters (paramsTokens [.pattern ns] ++ [.sign "=>"]) = some ([.pattern ns], []) := by
  have evaluated : (Formula.parse Grammar.stock "rows[.größe > 1]").toOption.any
      (bindsAndUses ["größe"] ["größe"]) = true := by decide +kernel
  obtain ⟨s, e, callee, e', journal, parsed, ran, _⟩ := exists_filter_of_bindsAndUses evaluated
  have part := Formula.self_mem_parts (.filter s e true)
  have has : NameClass.words.HasWords := fun c => ⟨id, id⟩
  obtain ⟨s', ns, e'', is, _, _, _, read, _⟩ :=
    filter_pattern_read_iff Options.usual parsed part has _ _ _ ran
  obtain ⟨rfl, rfl, rfl⟩ : callee = s'.dot "filter" ∧ ["größe"] = ns ∧ e' = e'' := by
    simpa [Expr.invoke] using is
  refine ⟨_, s, e, _, journal, parsed, part, ran, s', _, e', rfl, rfl, ?_⟩
  rw [read, if_pos (by decide)]

/-- A relative name that is reserved in scripts: its pattern is not read back. -/
theorem filter_pattern_refused : ∃ s e callee e' journal,
    Formula.parse Grammar.stock "rows[.if > 1]" = .ok (.filter s e true) ∧
      ((Options.usual.context Grammar.stock).lower (.filter s e true)).run Journal.empty =
        (.ok (.call callee [.arrow [.pattern ["if"]] e']), journal) ∧
      ∀ rest, parameters (paramsTokens [.pattern ["if"]] ++ .sign "=>" :: rest) = none := by
  have evaluated : (Formula.parse Grammar.stock "rows[.if > 1]").toOption.any
      (bindsAndUses ["if"] ["if"]) = true := by decide +kernel
  obtain ⟨s, e, callee, e', journal, parsed, ran, _⟩ := exists_filter_of_bindsAndUses evaluated
  have each : ∀ n ∈ ["if"], NameClass.ascii.isName n = true := by decide
  refine ⟨s, e, callee, e', journal, parsed, ran, fun rest => ?_⟩
  rw [parameters_pattern each, if_neg (by decide)]

end JexlScript
