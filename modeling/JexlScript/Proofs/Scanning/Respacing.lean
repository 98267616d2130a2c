import JexlScript.Proofs.Parsing.SignFolding
import JexlScript.Proofs.Scanning.Strings
import JexlScript.Proofs.Scanning.Tiling

/-!
# Layout does not matter

Where a token ends depends on what follows it. But no token goes on over a blank, if
no symbol holds one, and a token that is cut off stays one in front of a blank
(`next_append`). So the spellings of the tokens of a text, with blanks between them,
are cut into the same tokens again, and texts with the same spellings are read alike.
-/

namespace JexlScript

open List

variable {ι : Type} {g : Grammar ι}

/-- No symbol of the grammar holds a blank. -/
def Grammar.Blankless (g : Grammar ι) : Prop := ∀ s ∈ g.elements.names, ' ' ∉ s.toList

namespace Token

/-! ## In front of a blank -/

/-- Nothing is left of a text, or a blank comes next. -/
def Apart (rest : List Char) : Prop := ∀ c ∈ rest.head?, c = ' '

variable {q q' : List Char}

/-- A run that ends inside a text does not depend on what comes behind. -/
theorem takeWhile_append {p : Char → Bool} {l : List Char}
    (inside : ((l ++ q).takeWhile p).length ≤ l.length) (apart : ∀ c ∈ q'.head?, p c = false) :
    (l ++ q').takeWhile p = (l ++ q).takeWhile p := by
  induction l with
  | nil =>
    rw [nil_append, eq_nil_of_length_eq_zero (Nat.le_zero.mp inside)]
    cases q' with
    | nil => rfl
    | cons c q' => simp [apart c rfl]
  | cons c l ih =>
    cases here : p c with
    | false => simp [here]
    | true =>
      simp only [cons_append, takeWhile_cons, here, if_true, length_cons,
        Nat.add_le_add_iff_right] at inside ⊢
      rw [ih inside]

/-- A string that ends inside a text does not depend on what comes behind. -/
theorem string?_append {quote : Char} (other : quote ≠ '\\') {cs value : List Char} {length : Nat}
    (found : string? quote (cs ++ q) = some (value, length)) (inside : length ≤ cs.length) :
    string? quote (cs ++ q') = some (value, length) := by
  fun_induction string? quote cs generalizing value length with
  | case1 =>
    obtain ⟨body, rest, _, rfl⟩ := string?_eq_some found
    simp at inside
  | case2 | case5 =>
    rw [cons_append, string?_quote other] at found ⊢
    exact found
  | case3 c plain =>
    -- the string would have to go on with what was behind the text
    obtain ⟨body, rest, whole, rfl⟩ := string?_eq_some found
    obtain rfl : body = [] := eq_nil_of_length_eq_zero (by simpa using inside)
    cases whole
    exact absurd rfl plain
  | case4 c n cs escaped ih =>
    rw [cons_append, cons_append, string?, if_pos escaped] at found ⊢
    obtain ⟨⟨value', length'⟩, found', same⟩ := Option.map_eq_some_iff.mp found
    cases same
    rw [ih found' (by simpa using inside), Option.map_some]
  | case6 c n cs plain other ih =>
    rw [cons_append, cons_append, string?, if_neg plain, if_neg other] at found ⊢
    obtain ⟨⟨value', length'⟩, found', same⟩ := Option.map_eq_some_iff.mp found
    cases same
    rw [← cons_append, ih found' (by simpa using inside), Option.map_some]

theorem fraction_append {l : List Char} (apart : Apart q')
    (inside : fraction (l ++ q) = [] ∨ 1 + (fraction (l ++ q)).length ≤ l.length) :
    fraction (l ++ q') = fraction (l ++ q) := by
  cases l with
  | nil =>
    have nothing : fraction q = [] := inside.resolve_right (by simp)
    rw [nil_append, nil_append, nothing]
    cases q' with
    | nil => rfl
    | cons c q' => exact fraction_cons q' (by rw [apart c rfl]; decide)
  | cons c l =>
    by_cases point : c = '.'
    · subst point
      change (l ++ q').takeWhile Char.isDigit = (l ++ q).takeWhile Char.isDigit
      refine takeWhile_append ?_ fun c head => by rw [apart c head]; rfl
      change (l ++ q).takeWhile Char.isDigit = [] ∨
        1 + ((l ++ q).takeWhile Char.isDigit).length ≤ l.length + 1 at inside
      rcases inside with nothing | inside
      · simp [nothing]
      · omega
    · rw [cons_append, cons_append, fraction_cons _ point, fraction_cons _ point]

/-- Nor does a number, if what comes behind is apart from it. -/
theorem number?_append {cs : List Char} {value : Double} {length : Nat} (apart : Apart q')
    (found : number? (cs ++ q) = some (value, length)) (inside : length ≤ cs.length) :
    number? (cs ++ q') = some (value, length) := by
  rw [number?_eq] at found ⊢
  simp only at found ⊢
  -- Both parts of the number end within the text that is kept.
  have bounds : ((cs ++ q).takeWhile Char.isDigit).length ≤ length ∧
      (fraction ((cs ++ q).drop ((cs ++ q).takeWhile Char.isDigit).length) = [] ∨
        ((cs ++ q).takeWhile Char.isDigit).length + 1 +
          (fraction ((cs ++ q).drop ((cs ++ q).takeWhile Char.isDigit).length)).length ≤ length) := by
    split_ifs at found with fractional digits
    · cases found
      exact ⟨by omega, .inr (Nat.le_refl _)⟩
    · cases found
      exact ⟨Nat.le_refl _, .inl (by simpa using fractional)⟩
  have whole : (cs ++ q').takeWhile Char.isDigit = (cs ++ q).takeWhile Char.isDigit :=
    takeWhile_append (by omega) fun c head => by rw [apart c head]; rfl
  rw [whole]
  generalize (cs ++ q).takeWhile Char.isDigit = digits at found bounds ⊢
  rw [drop_append_of_le_length (by omega)] at found bounds ⊢
  have fits : fraction (cs.drop digits.length ++ q) = [] ∨
      1 + (fraction (cs.drop digits.length ++ q)).length ≤ (cs.drop digits.length).length := by
    refine bounds.2.imp_right fun _ => ?_
    rw [length_drop]
    omega
  rwa [fraction_append apart fits]

/-- Nor does the longest symbol, for no symbol holds a blank. -/
theorem longestSymbol_append (blankless : g.Blankless) {cs : List Char}
    (apart : Apart q') (inside : (longestSymbol g (cs ++ q)).length ≤ cs.length) :
    longestSymbol g (cs ++ q') = longestSymbol g (cs ++ q) := by
  obtain ⟨_, _, longest⟩ := longestSymbol_spec g (cs ++ q)
  unfold longestSymbol
  rw [← head?_filter, ← head?_filter]
  congr 2
  refine filter_congr fun chars member => ?_
  obtain ⟨s, named, word, rfl⟩ := ((symbols_spec g).2 chars).mp member
  -- in both texts a symbol fits only if it fits into the common start
  rw [Bool.eq_iff_iff, isPrefixOf_iff_prefix, isPrefixOf_iff_prefix]
  constructor
  · intro fits
    refine List.IsPrefix.trans ?_ (prefix_append cs q)
    rcases prefix_or_prefix_of_prefix fits (prefix_append cs q') with short | ⟨r, long⟩
    · exact short
    · rw [← long, prefix_append_right_inj] at fits
      cases r with
      | nil => rw [← long, append_nil]
      | cons c r =>
        obtain ⟨rest, rfl⟩ := fits
        exact absurd (by rw [← long, apart c rfl]; simp) (blankless s named)
  · intro fits
    have bound := Nat.le_trans (longest s named word fits) inside
    exact (prefix_of_prefix_length_le fits (prefix_append cs q) bound).trans
      (prefix_append cs q')

/-- What is cut off a text is cut off as well if a blank comes behind it. -/
theorem next_append (blankless : g.Blankless) {c : Char}
    {cs : List Char} {lexeme : Lexeme} {length : Nat} (apart : Apart q')
    (cut : next g c (cs ++ q) = .ok (lexeme, length)) (inside : length ≤ cs.length + 1) :
    next g c (cs ++ q') = .ok (lexeme, length) := by
  unfold next at cut ⊢
  split_ifs at cut ⊢ with quote digit start
  · split at cut <;> cases cut
    next value length found =>
      have other : c ≠ '\\' := by
        rintro rfl
        simp at quote
      rw [string?_append other found (by omega)]
  · rw [← cons_append] at cut ⊢
    split at cut <;> cases cut
    next value found => rw [number?_append apart found inside]
  · cases cut
    rw [takeWhile_append (by simpa using inside) fun c head => by rw [apart c head]; decide]
  · simp only at cut
    rw [← cons_append] at cut ⊢
    have same : longestSymbol g (c :: cs ++ q') = longestSymbol g (c :: cs ++ q) := by
      refine longestSymbol_append blankless apart ?_
      split at cut
      · split_ifs at cut
        cases cut
        exact inside
      · cases cut
    rw [same]
    exact cut

/-! ## Tokens, copied -/

/-- A gap between tokens. -/
def AllBlank (gap : List Char) : Prop := ∀ c ∈ gap, Text.isBlank c = true

/-- Blanks ahead of a text do not change its tokens. -/
theorem Cuts.spaced {position : Nat} {gap cs rest : List Char} {ts : List Token}
    (blank : AllBlank gap) (cuts : Cuts g (position + gap.length) cs ts rest) :
    Cuts g position (gap ++ cs) ts rest := by
  induction gap generalizing position with
  | nil => exact cuts
  | cons c gap ih =>
    obtain ⟨here, blank⟩ := forall_mem_cons.mp blank
    refine .blank here (ih blank ?_)
    rwa [Nat.add_assoc, Nat.add_comm 1]

theorem drop_behind {text gap cs : List Char} {position : Nat}
    (place : text.drop position = gap ++ cs) : text.drop (position + gap.length) = cs := by
  rw [← drop_drop, place, drop_left]

/-- The first token of a run stands behind white space. It is cut off as well behind
other white space, where the text is the same behind it up to a blank. -/
theorem Cuts.copy (blankless : g.Blankless) {text : List Char}
    {position : Nat} {t : Token} {ts : List Token}
    (cuts : Cuts g position (text.drop position) (t :: ts) []) :
    ∃ gap, AllBlank gap ∧ text.drop position = gap ++ text.drop t.position ∧
      t.position = position + gap.length ∧
      text.drop t.position = t.raw.toList ++ text.drop t.stop ∧
      Cuts g t.stop (text.drop t.stop) ts [] ∧
      ∀ (near : List Char) {gap' q' : List Char} {position' : Nat} {ts' : List Token},
        AllBlank gap' → near <+: text.drop t.stop → Apart q' →
        Cuts g (position' + gap'.length + t.raw.toList.length) (near ++ q') ts' [] →
        Cuts g position' (gap' ++ (t.raw.toList ++ (near ++ q')))
          (⟨t.lexeme, t.raw, position' + gap'.length⟩ :: ts') [] := by
  generalize place : text.drop position = cs at cuts
  generalize whole : t :: ts = all at cuts
  generalize nothing : [] = rest at cuts
  rw [← place]
  induction cuts with
  | stop => cases whole
  | @blank position c cs _ _ blank _ ih =>
    have next : text.drop (position + 1) = cs := @drop_behind text [c] cs position place
    obtain ⟨gap, blanks, before, at_, found⟩ := ih next whole nothing
    refine ⟨c :: gap, forall_mem_cons.mpr ⟨blank, blanks⟩, ?_, ?_, found⟩
    · rw [place, ← next, before, cons_append]
    · rw [at_, length_cons]
      omega
  | @token position c cs raw behind _ lexeme _ other spelled cut others =>
    cases whole
    cases nothing
    obtain ⟨_, _, _, lengths, piece⟩ := next_piece cut
    obtain ⟨tail, rfl, rfl⟩ : ∃ tail, raw = c :: tail ∧ cs = tail ++ behind := by
      cases raw with
      | nil => exact absurd (length_eq_zero_iff.mp lengths.symm) piece.ne_nil
      | cons d tail =>
        obtain ⟨rfl, rfl⟩ := List.cons.inj spelled
        exact ⟨tail, rfl, rfl⟩
    have rest : text.drop (position + (c :: tail).length) = behind := drop_behind place
    simp only [Token.stop, String.toList_ofList, rest]
    refine ⟨[], by simp [AllBlank], rfl, rfl, place, others, ?_⟩
    intro near gap' q' position' ts' blanks common apart others'
    obtain ⟨far, rfl⟩ := common
    -- The token needs what is near behind it only, and there a blank may follow.
    have cut' : Token.next g c (tail ++ near ++ q') = .ok (lexeme, (c :: tail).length) := by
      refine next_append blankless apart (q := far) (by simpa using cut) ?_
      simp
    have spelled' : c :: (tail ++ near ++ q') = c :: tail ++ (near ++ q') := by simp
    exact .spaced blanks (spelled' ▸ .token other spelled' cut' others')

/-! ## Texts, laid out anew -/

/-- The tokens, with a gap before the first and a blank before each other one. -/
def laid : (gap : List Char) → List Token → List Char
  | _, [] => []
  | gap, t :: ts => gap ++ (t.raw.toList ++ laid [' '] ts)

theorem apart_laid (ts : List Token) : Apart (laid [' '] ts) := by
  cases ts with
  | nil => simp [laid, Apart]
  | cons t ts => simp [laid, Apart]

/-- What a token is, wherever it stands. -/
def spelling (t : Token) : Lexeme × String := (t.lexeme, t.raw)

/-- A token that is joined to none stays as it is. -/
theorem foldSigns_kept {text : List Char} {before before' : Option Token} {t t' u : Token}
    {ts ts' : List Token} (due : signFollows before' = signFollows before)
    (same : (t' :: ts').map lexeme = (t :: u :: ts).map lexeme)
    (kept : u.number = none ∨ ¬ (t.isMinus && signFollows before) = true) :
    foldSigns text before' (t' :: ts') = t' :: foldSigns text (some t') ts' := by
  obtain ⟨first, second⟩ := List.cons.inj same
  obtain ⟨u', ts', rfl, second, _⟩ := map_eq_cons_iff.mp second
  have number : u'.number = u.number := by simp only [Token.number, second]
  have minus : t'.isMinus = t.isMinus := by simp only [isMinus, first]
  cases found : u.number with
  | none => simp only [foldSigns, number, found]
  | some v =>
    have plain := kept.resolve_left (by simp [found])
    simp only [foldSigns, number, found, minus, due, plain, Bool.false_eq_true, if_false]

/-- A minus that is joined to a number keeps the gap between them. -/
theorem signed_raw {text gap behind : List Char} {minus number : Token} (value : Double)
    (place : text.drop minus.position =
      minus.raw.toList ++ (gap ++ (number.raw.toList ++ behind)))
    (later : number.position = minus.stop + gap.length) :
    (signed text minus number value).raw.toList =
      minus.raw.toList ++ (gap ++ number.raw.toList) := by
  have length : number.stop - minus.position =
      (minus.raw.toList ++ (gap ++ number.raw.toList)).length := by
    simp only [stop, later, length_append]
    omega
  have parts : minus.raw.toList ++ (gap ++ (number.raw.toList ++ behind)) =
      minus.raw.toList ++ (gap ++ number.raw.toList) ++ behind := by
    simp
  rw [signed, String.toList_ofList, place, length, parts, take_left]

/-- Tokens from some place of a text on are cut off anew where they are laid out with
their signs joined, and the same signs are joined. -/
def Relaid (g : Grammar ι) (text text' : List Char) (before : Option Token) (ts : List Token) :
    Prop :=
  ∀ (position position' : Nat) (gap : List Char) (before' : Option Token),
    Cuts g position (text.drop position) ts [] → AllBlank gap →
    signFollows before' = signFollows before →
    text'.drop position' = laid gap (foldSigns text before ts) →
    ∃ ts', Cuts g position' (text'.drop position') ts' [] ∧ ts'.map lexeme = ts.map lexeme ∧
      (foldSigns text' before' ts').map spelling = (foldSigns text before ts).map spelling

namespace Relaid

variable {text text' : List Char} {before : Option Token} {t u : Token} {ts : List Token}

theorem allBlank_blank : AllBlank [' '] := by
  simp [AllBlank]
  decide

/-- Laying out again keeps a token that is no sign. -/
theorem keep (blankless : g.Blankless)
    (kept : u.number = none ∨ ¬ (t.isMinus && signFollows before) = true)
    (others : Relaid g text text' (some t) (u :: ts)) :
    Relaid g text text' before (t :: u :: ts) := by
  intro position position' gap before' cuts blank due place
  obtain ⟨_, _, _, _, _, cuts, copies⟩ := cuts.copy blankless
  rw [foldSigns_kept rfl rfl kept, laid] at place
  let t' : Token := ⟨t.lexeme, t.raw, position' + gap.length⟩
  have behind := drop_behind (drop_behind place)
  obtain ⟨ts', cuts', same, spelled⟩ := others _ _ _ (some t') cuts allBlank_blank rfl behind
  rw [behind] at cuts'
  have same' : (t' :: ts').map lexeme = (t :: u :: ts).map lexeme := congrArg (t.lexeme :: ·) same
  refine ⟨t' :: ts', ?_, same', ?_⟩
  · rw [place]
    exact copies [] blank nil_prefix (apart_laid _) cuts'
  · rw [foldSigns_kept due same' kept, foldSigns_kept rfl rfl kept, map_cons, spelled]
    rfl

/-- Laying out again keeps a sign with its number, as one token. -/
theorem sign (blankless : g.Blankless) {v : Double}
    (number : u.number = some v) (signs : (t.isMinus && signFollows before) = true)
    (others : Relaid g text text' (some (signed text t u v)) ts) :
    Relaid g text text' before (t :: u :: ts) := by
  intro position position' gap before' cuts blank due place
  have folded : foldSigns text before (t :: u :: ts) =
      signed text t u v :: foldSigns text (some (signed text t u v)) ts := by
    simp [foldSigns, number, signs]
  obtain ⟨_, _, _, _, first, cuts, copies⟩ := cuts.copy blankless
  obtain ⟨between, blanks, second, later, third, cuts, copies'⟩ := cuts.copy blankless
  have joined : (signed text t u v).raw.toList = t.raw.toList ++ (between ++ u.raw.toList) :=
    signed_raw v (by rw [first, second, third]) later
  rw [folded, laid, joined, append_assoc, append_assoc] at place
  let t' : Token := ⟨t.lexeme, t.raw, position' + gap.length⟩
  let u' : Token := ⟨u.lexeme, u.raw, t'.stop + between.length⟩
  have behind := drop_behind (drop_behind (drop_behind (drop_behind place)))
  obtain ⟨ts', cuts', same, spelled⟩ :=
    others _ _ _ (some (signed text' t' u' v)) cuts allBlank_blank rfl behind
  rw [behind] at cuts'
  -- behind the minus the text stays the same up to the end of the number
  have run := copies' [] blanks nil_prefix (apart_laid _) cuts'
  have run' := copies (between ++ u.raw.toList) blank
    ⟨text.drop u.stop, by rw [second, third, append_assoc]⟩ (apart_laid _)
    (by rw [append_assoc]; exact run)
  refine ⟨t' :: u' :: ts', ?_, ?_, ?_⟩
  · rw [place, ← append_assoc between]
    exact run'
  · simp only [map_cons, same, t', u']
  · have folded' : foldSigns text' before' (t' :: u' :: ts') =
        signed text' t' u' v :: foldSigns text' (some (signed text' t' u' v)) ts' := by
      have number' : u'.number = some v := number
      have signs' : (t'.isMinus && signFollows before') = true := due ▸ signs
      simp [foldSigns, number', signs']
    have joined' : (signed text' t' u' v).raw = (signed text t u v).raw := by
      rw [← String.toList_inj, joined, signed_raw v (drop_behind place) rfl]
    rw [folded, folded', map_cons, spelled, map_cons, spelling, joined']
    rfl

end Relaid

/-- Tokens that are laid out again are joined as before, by induction over them. -/
theorem relaid (blankless : g.Blankless)
    (text text' : List Char) (before : Option Token) (ts : List Token) :
    Relaid g text text' before ts := by
  fun_induction foldSigns text before ts with
  | case1 =>
    intro position position' gap before' cuts blank due place
    exact ⟨[], place ▸ .stop _ _, rfl, rfl⟩
  | case2 before t =>
    intro position position' gap before' cuts blank due place
    obtain ⟨_, _, _, _, _, _, copies⟩ := cuts.copy blankless
    refine ⟨[⟨t.lexeme, t.raw, position' + gap.length⟩], ?_, rfl, rfl⟩
    rw [place]
    exact copies [] blank nil_prefix (apart_laid []) (.stop _ _)
  | case3 before t u ts v number signs joined ih => exact Relaid.sign blankless number signs ih
  | case4 before t u ts v number signs ih => exact Relaid.keep blankless (.inr signs) ih
  | case5 before t u ts number ih => exact Relaid.keep blankless (.inl number) ih

theorem toList_intercalate_raw (ts : List Token) :
    (" ".intercalate (ts.map raw)).toList = laid [] ts := by
  rw [String.toList_intercalate]
  cases ts with
  | nil => rfl
  | cons t ts =>
    induction ts generalizing t with
    | nil => simp [laid]
    | cons u ts ih =>
      have := ih u
      simp_all [laid, List.intercalate]

/-- The spellings of tokens, laid out with blanks, are cut into tokens with the same spellings. -/
theorem tokenize_laid (blankless : g.Blankless) {text : List Char}
    {tokens : List Token} (read : tokenize g text = .ok tokens) :
    ∃ again, tokenize g (laid [] tokens) = .ok again ∧
      again.map spelling = tokens.map spelling := by
  obtain ⟨ts, scanned, rfl⟩ := exists_scan read
  obtain ⟨ts', cuts, _, spelled⟩ :=
    relaid blankless text (laid [] (foldSigns text none ts)) none ts 0 0 [] none
      (scanFrom_eq_ok_iff.mp scanned) (by simp [AllBlank]) rfl rfl
  refine ⟨_, ?_, spelled⟩
  have scanned' : scan g (laid [] (foldSigns text none ts)) = .ok ts' :=
    scanFrom_eq_ok_iff.mpr cuts
  rw [tokenize, scanned']
  rfl

theorem laid_congr {ts ts' : List Token} (same : ts'.map raw = ts.map raw) (gap : List Char) :
    laid gap ts' = laid gap ts := by
  induction ts generalizing gap ts' with
  | nil => rw [map_eq_nil_iff.mp same]
  | cons t ts ih =>
    obtain ⟨t', ts', rfl, first, others⟩ := map_eq_cons_iff.mp same
    rw [laid, laid, first, ih others]

/-- Tokens that are spelled alike are alike, whatever texts they are cut from. -/
theorem lexemes_of_raws (blankless : g.Blankless)
    {text text' : List Char} {tokens tokens' : List Token} (read : tokenize g text = .ok tokens)
    (read' : tokenize g text' = .ok tokens') (same : tokens'.map raw = tokens.map raw) :
    tokens'.map lexeme = tokens.map lexeme := by
  obtain ⟨again, laid, spelled⟩ := tokenize_laid blankless read
  obtain ⟨again', laid', spelled'⟩ := tokenize_laid blankless read'
  rw [laid_congr same, laid] at laid'
  cases laid'
  have spellings : tokens'.map spelling = tokens.map spelling := spelled'.symm.trans spelled
  have lexemes (ts : List Token) : ts.map lexeme = (ts.map spelling).map Prod.fst := by
    rw [map_map]
    rfl
  rw [lexemes, spellings, lexemes]

end Token

/-- The parser looks at lexemes only, unless it fails. -/
theorem Formula.ofTokens_of_lexemes {text : List Char} {tokens tokens' : List Token} {f : Formula}
    (read : Token.tokenize g text = .ok tokens)
    (same : tokens'.map Token.lexeme = tokens.map Token.lexeme)
    (parsed : ofTokens g tokens' = .ok f) : ofTokens g tokens = .ok f := by
  obtain ⟨ts, _, rfl⟩ := Token.exists_scan read
  have spells := (Token.foldSigns_unfolds text none ts).spells same
  exact (ofTokens_foldSigns g text ts f).mpr (ofTokens_spells spells parsed)

/-- Layout does not matter: the spellings of the tokens of a text, joined by blanks,
are the same tokens again, and a text with the same spellings is read alike. -/
theorem tokenize_respaced (blankless : g.Blankless) {text : String}
    {tokens : List Token} (read : tokenize g text = .ok tokens) :
    (∃ again, tokenize g (" ".intercalate (tokens.map Token.raw)) = .ok again ∧
        again.map Token.spelling = tokens.map Token.spelling) ∧
      ∀ other tokens', tokenize g other = .ok tokens' →
        tokens'.map Token.raw = tokens.map Token.raw →
        tokens'.map Token.lexeme = tokens.map Token.lexeme ∧
          ∀ f, Formula.parse g other = .ok f ↔ Formula.parse g text = .ok f := by
  have cut := tokenize_eq_ok_iff.mp read
  constructor
  · obtain ⟨again, laid, spelled⟩ := Token.tokenize_laid blankless cut
    refine ⟨again, tokenize_eq_ok_iff.mpr ?_, spelled⟩
    rw [Token.toList_intercalate_raw, laid]
  · intro other tokens' read' raws
    have cut' := tokenize_eq_ok_iff.mp read'
    have same := Token.lexemes_of_raws blankless cut cut' raws
    refine ⟨same, fun f => ?_⟩
    simp only [Formula.parse_eq_ok_iff, read, read', Except.ok.injEq, exists_eq_left']
    exact ⟨Formula.ofTokens_of_lexemes cut same, Formula.ofTokens_of_lexemes cut' same.symm⟩

/-- Two texts with the spellings `a`, `-` and `- 5`, and their layout with blanks. -/
theorem tokenize_respaced_signs : ∃ tokens, tokenize Grammar.stock "a- - 5" = .ok tokens ∧
    (∃ again, tokenize Grammar.stock "a - - 5" = .ok again ∧
      again.map Token.spelling = tokens.map Token.spelling) ∧
    ∀ f, Formula.parse Grammar.stock "a-- 5" = .ok f ↔
      Formula.parse Grammar.stock "a- - 5" = .ok f := by
  let tokens (second third : Nat) : List Token := [⟨.identifier "a", "a", 0⟩,
    ⟨.symbol .binaryOp "-", "-", second⟩,
    ⟨.literal (.double (Double.ofRatio true 5 1)), "- 5", third⟩]
  have read : tokenize Grammar.stock "a- - 5" = .ok (tokens 1 3) := by decide +kernel
  have read' : tokenize Grammar.stock "a-- 5" = .ok (tokens 1 2) := by decide +kernel
  have respaced := tokenize_respaced (g := Grammar.stock) (by unfold Grammar.Blankless; decide +kernel) read
  exact ⟨_, read, respaced.1, (respaced.2 _ _ read' rfl).2⟩

end JexlScript
